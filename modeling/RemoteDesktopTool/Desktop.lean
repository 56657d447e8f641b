import RemoteDesktopTool.SessionCommands

namespace RemoteDesktopTool

open SessionManager

/-- Work that the pages ask the background worker to do. -/
inductive UiCommand
  | connect (profile : ProfileId) (size : UInt32 × UInt32)
  | disconnect (session : SessionId)
  | terminalInput (session : SessionId) (data : List UInt8)
  | resize (session : SessionId) (cols rows : UInt32)
  | transfer (session : SessionId) (localPath remote : Text) (upload : Bool)
  | saveConfig
  | refreshLogs
deriving DecidableEq

structure AppState where
  sessions : Channels
  commands : List UiCommand
  status : Text

namespace AppState

def push (state : AppState) (command : UiCommand) : AppState :=
  { state with commands := state.commands ++ [command] }

def drain (state : AppState) : List UiCommand × AppState :=
  (state.commands, { state with commands := [] })

def setStatus (state : AppState) (text : Text) : AppState := { state with status := text }

/-- The error of a send is dropped. -/
def send (state : AppState) (session : SessionId) (command : SessionManager.SessionCommand) :
    AppState :=
  { state with sessions := (state.sessions.send session command).2 }

def cancel (state : AppState) (session : SessionId) : AppState :=
  { state with sessions := state.sessions.next (.call (.cancel session)) }

def shownSize (size : UInt32 × UInt32) : Text :=
  "(".toList ++ decimal size.1.toNat ++ ", ".toList ++ decimal size.2.toNat ++ ")".toList

/-- One command in the loop of `command_worker`; `saved` is how saving the configuration ends, an
error as it is shown. -/
def work (saved : Except Text Unit) (state : AppState) : UiCommand → AppState
  | .saveConfig =>
    match saved with
    | .ok () => state.setStatus "settings saved".toList
    | .error error => state.setStatus ("cannot save settings: ".toList ++ error)
  | .refreshLogs => state.setStatus "logs refreshed".toList
  | .connect profile size =>
    state.setStatus ("connecting to profile ".toList ++ profile.toText ++ " at ".toList ++
      shownSize size)
  | .disconnect session => (state.cancel session).setStatus "session disconnected".toList
  | .terminalInput session data => state.send session (.terminalInput data)
  | .resize session cols rows => state.send session (.resize cols rows)
  | .transfer session localPath remote upload =>
    state.send session (if upload then .upload localPath remote else .download remote localPath)

end AppState

/-- The application between two steps of its threads; `batch` is what the worker has drained and
not done yet. -/
structure Desktop where
  state : AppState
  batch : List UiCommand

/-- A page asks for work, the worker wakes up or does its next command, or another thread uses the
session manager. -/
inductive DesktopStep
  | push (command : UiCommand)
  | drain
  | work (saved : Except Text Unit)
  | other (op : ChannelOp)

def Desktop.next (desktop : Desktop) : DesktopStep → Desktop
  | .push command => { desktop with state := desktop.state.push command }
  | .drain =>
    -- the worker sleeps only when its batch is done
    match desktop.batch with
    | [] => ⟨desktop.state.drain.2, desktop.state.drain.1⟩
    | _ :: _ => desktop
  | .work saved =>
    match desktop.batch with
    | [] => desktop
    | command :: batch => ⟨desktop.state.work saved command, batch⟩
  | .other op =>
    { desktop with
      state := { desktop.state with sessions := desktop.state.sessions.next op } }

end RemoteDesktopTool
