import RemoteDesktopTool.AuditLog
import RemoteDesktopTool.ConfigLoad
import RemoteDesktopTool.IdTexts

namespace RemoteDesktopTool

namespace ErrorCode

def asStr : ErrorCode → Text
  | config => "config".toList
  | io => "io".toList
  | permission => "permission".toList
  | crypto => "crypto".toList
  | vault => "vault".toList
  | keystore => "keystore".toList
  | network => "network".toList
  | timeout => "timeout".toList
  | cancelled => "cancelled".toList
  | protocol => "protocol".toList
  | authentication => "authentication".toList
  | hostKeyUnknown => "host_key_unknown".toList
  | hostKeyMismatch => "host_key_mismatch".toList
  | tls => "tls".toList
  | transfer => "transfer".toList
  | terminal => "terminal".toList
  | sessionState => "session_state".toList
  | platform => "platform".toList
  | service => "service".toList
  | notFound => "not_found".toList
  | unsupported => "unsupported".toList
  | invalidInput => "invalid_input".toList
  | internal => "internal".toList

end ErrorCode

def ConnectionProfile.address {D : Type} (profile : ConnectionProfile D) : Text :=
  profile.endpoint.host ++ ':' :: decimal profile.endpoint.port.toNat

inductive AgentCommand
  | status
  | listSessions
  | connect (profile : Text)
  | disconnect (session : Text)
  | reloadConfig
deriving DecidableEq

structure Reply where
  ok : Bool
  message : Text
  code : Option Text
deriving DecidableEq

namespace Reply

def success (message : Text) : Reply := ⟨true, message, none⟩

/-- `shown` is the error as text. -/
def failure (shown : RdtError → Text) (error : RdtError) : Reply :=
  ⟨false, shown error, some error.code.asStr⟩

end Reply

/-- What the agent gets from elsewhere: `serde_json` on its commands and replies and on the list
of sessions, which comes with the order of that list; the TOML reader; its version and platform as
text; an error as text. -/
structure AgentTexts (V S D : Type) where
  command : Text → Except Text AgentCommand
  reply : Reply → Except Text Text
  sessions : List SessionInfo → Except Text Text
  toml : Toml V S D
  status : Text
  shown : RdtError → Text

/-- `audited` is what the agent hands to the audit log, by itself or through the manager. -/
structure Agent (S D : Type) where
  config : ConfigStore S D
  sessions : SessionManager
  audited : List AuditRecord

namespace Agent

variable {V S D : Type} [Inhabited S]

def stampAll (stamp : UInt64) (told : List Notice) : List AuditRecord :=
  (told.filterMap Notice.audit).map fun event => ⟨event, stamp, none⟩

def connected (stamp : UInt64) (id : ProfileId) (address : Text) : AuditRecord :=
  ⟨⟨.sessionConnect, .info, none, address⟩, stamp, some id.toText⟩

/-- The outer `none` is a panic, in the parsing of an identifier. `stamp` is the time, `read` the
configuration file. -/
def handle (texts : AgentTexts V S D) (stamp : UInt64) (read : Except IoError Text)
    (agent : Agent S D) : AgentCommand → Option (RdtResult Reply × Agent S D)
  | .status => some (.ok (.success texts.status), agent)
  | .listSessions =>
    let infos := (Tables.rows agent.sessions.inner).map SessionSlot.info
    some (.ok (.success ((texts.sessions infos).toOption.getD "[]".toList)), agent)
  | .connect profile =>
    (ProfileId.fromStr profile).map fun
      | .error _ =>
        (.error (.new .invalidInput "the profile identifier is not valid".toList), agent)
      | .ok id =>
        match agent.config.find id with
        | none => (.error (.new .notFound "no profile with that identifier".toList), agent)
        | some found =>
          (.ok (.success ("connecting to ".toList ++ found.address)),
            { agent with audited := agent.audited ++ [connected stamp id found.address] })
  | .disconnect session =>
    (SessionId.fromStr session).map fun
      | .error _ =>
        (.error (.new .invalidInput "the session identifier is not valid".toList), agent)
      | .ok id =>
        (.ok (.success "the session was disconnected".toList),
          { agent with
            sessions := (agent.sessions.cancel id).1
            audited := agent.audited ++ stampAll stamp (agent.sessions.cancel id).2 })
  | .reloadConfig =>
    match agent.config.reload texts.toml read with
    | (.error .missing, config) =>
      some (.error (.new .config "the configuration file is missing".toList),
        { agent with config := config })
    | (.error (.failed error), config) => some (.error error, { agent with config := config })
    | (.ok (), config) =>
      some (.ok (.success "the configuration was reloaded".toList), { agent with config := config })

/-- The answer to one line of a control connection. -/
def answer (texts : AgentTexts V S D) (stamp : UInt64) (read : Except IoError Text)
    (agent : Agent S D) (line : Text) : Option (Reply × Agent S D) :=
  match texts.command line with
  | .ok command =>
    (agent.handle texts stamp read command).map fun
      | (.ok reply, handled) => (reply, handled)
      | (.error error, handled) => (.failure texts.shown error, handled)
  | .error error =>
    some (⟨false, "cannot parse the command: ".toList ++ error,
      some ErrorCode.invalidInput.asStr⟩, agent)

end Agent

/-- The peer is the owner of the service, or the refusal. -/
def verifyPeer (uid : UInt32) : Option UInt32 → RdtResult Unit
  | none => .error (.new .permission
      "cannot read the peer credentials of the control connection".toList)
  | some peer =>
    if peer ≠ uid then
      .error (.new .permission ("the control connection came from uid ".toList ++
        decimal peer.toNat ++ " but the agent runs as ".toList ++ decimal uid.toNat))
    else .ok ()

/-- One control connection: what its client has sent, how far the reader is in it, whether the
client has closed its end, what was written back, and whether its task still runs. -/
structure ControlConnection where
  received : List UInt8
  position : Nat
  ended : Bool
  written : List UInt8
  serving : Bool

namespace ControlConnection

def accepted : ControlConnection := ⟨[], 0, false, [], true⟩

/-- The bytes of the next line, with its end: up to the next `\n`, or what is left at the end. -/
def nextRaw (ended : Bool) (unread : List UInt8) : Option (List UInt8) :=
  let body := unread.takeWhile (· ≠ 0x0A)
  if body.length < unread.length then some (body ++ [0x0A])
  else if ended && !unread.isEmpty then some unread
  else none

/-- A line without its `\n` or `\r\n`. -/
def lineOf (raw : List UInt8) : List UInt8 :=
  if raw.getLast? = some 0x0A then
    let body := raw.dropLast
    if body.getLast? = some 0x0D then body.dropLast else body
  else raw

end ControlConnection

/-- The agent with its control connections, in the order in which they were accepted. -/
structure ControlSocket (S D : Type) where
  agent : Agent S D
  connections : List ControlConnection

/-- A peer connects, a client sends bytes or closes its end, the task of a connection does one turn
of its loop (`broken` is how many bytes it writes before the client is gone), or other parts of the
program use the manager or the configuration. -/
inductive ControlStep (S D : Type)
  | accept (credentials : Option UInt32)
  | receive (connection : Nat) (bytes : List UInt8)
  | finish (connection : Nat)
  | serve (connection : Nat) (stamp : UInt64) (read : Except IoError Text) (broken : Option Nat)
  | sessions (op : SessionOp)
  | config (e : Edit S D)

namespace ControlSocket

variable {V S D : Type} [Inhabited S]

def replyText (texts : AgentTexts V S D) (reply : Reply) : Text :=
  (texts.reply reply).toOption.getD []

/-- One turn of the loop of a connection; `none` is a panic. -/
def turn (texts : AgentTexts V S D) (stamp : UInt64) (read : Except IoError Text)
    (broken : Option Nat) (agent : Agent S D) (connection : ControlConnection) :
    Option (Agent S D × ControlConnection) :=
  match ControlConnection.nextRaw connection.ended
      (connection.received.drop connection.position) with
  | none =>
    -- it waits for more, or is done
    some (agent, { connection with serving := !connection.ended })
  | some raw =>
    match Parser.strFromUtf8 (ControlConnection.lineOf raw) with
    | none => some (agent, { connection with serving := false })
    | some line =>
      (agent.answer texts stamp read line).map fun (reply, handled) =>
        let bytes := Text.asBytes (replyText texts reply ++ ['\n'])
        (handled,
          { connection with
            position := connection.position + raw.length
            written := connection.written ++ bytes.take (broken.getD bytes.length)
            serving := broken.isNone })

def next (texts : AgentTexts V S D) (quoted : Text → Text) (uid : UInt32) :
    ControlStep S D → ControlSocket S D → Option (ControlSocket S D)
  | .accept credentials, socket =>
    match verifyPeer uid credentials with
    | .error _ => some socket
    | .ok () => some { socket with connections := socket.connections ++ [.accepted] }
  | .receive i bytes, socket => some
      { socket with
        connections := socket.connections.modify i fun connection =>
          if connection.ended then connection
          else { connection with received := connection.received ++ bytes } }
  | .finish i, socket => some
      { socket with
        connections := socket.connections.modify i fun connection =>
          { connection with ended := true } }
  | .serve i stamp read broken, socket =>
    match socket.connections[i]? with
    | none => some socket
    | some connection =>
      if connection.serving then
        (turn texts stamp read broken socket.agent connection).map fun (agent, served) =>
          ⟨agent, socket.connections.set i served⟩
      else some socket
  | .sessions op, socket =>
    some { socket with agent := { socket.agent with sessions := socket.agent.sessions.next op } }
  | .config e, socket =>
    some { socket with agent := { socket.agent with config := socket.agent.config.next quoted e } }

end ControlSocket

end RemoteDesktopTool
