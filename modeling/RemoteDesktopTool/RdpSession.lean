import RemoteDesktopTool.Framebuffer
import RemoteDesktopTool.Strings

namespace RemoteDesktopTool

open Checked

/-- What the protocol stage hands back; a reason is the text that `{reason:?}` prints. -/
inductive ActiveStageOutput
  | responseFrame (frame : List UInt8)
  | graphicsUpdate (left top width height : UInt16) (data : List UInt8)
  | pointerDefault
  | pointerHidden
  | pointerPosition (x y : UInt16)
  | serverRedirection
  | clipboard
  | serverName (name : Text)
  | desktopSize (width height : UInt16)
  | terminate (reason : Text)
  | other
deriving DecidableEq, Repr

/-- Events reported to the UI. -/
inductive RdpEvent
  | frame (damage : List DamageRect) (width height : Nat)
  | serverName (name : Text)
  | pointer (width height hotspotX hotspotY : Nat) (pixels : List UInt8)
  | remoteClipboard (text : Text)
  | resized (width height : Nat)
  | closed (reason : Text)
deriving DecidableEq, Repr

/-- What the stage returns for a command or a PDU; an error is its text. -/
abbrev StageAnswer := Except Text (List ActiveStageOutput)

/-- A command, with what the stage answers to it. -/
inductive SessionCommand
  | input (answer : StageAnswer)
  | resize (answer : StageAnswer)
  | clipboard (answer : StageAnswer)
  | disconnect
deriving DecidableEq, Repr

def SessionCommand.answer : SessionCommand → Option StageAnswer
  | .input answer | .resize answer | .clipboard answer => some answer
  | .disconnect => none

/-- The counters that the session task and the UI share. -/
structure SessionCounters where
  bytesIn : Nat
  bytesOut : Nat
  frames : Nat
  latencyMs : Nat
deriving DecidableEq, Repr

/-- Where the task is: in its loop with outputs left to apply, behind the loop, or gone. -/
inductive TaskPhase
  | running (outputs : List ActiveStageOutput)
  | leaving
  | ended
deriving DecidableEq, Repr

/-- The session task, with the events it has sent and the bytes it has written to the server. -/
structure SessionTask where
  phase : TaskPhase
  framebuffer : Framebuffer
  counters : SessionCounters
  closing : Bool
  events : List RdpEvent
  written : List UInt8
deriving DecidableEq, Repr

/-- A move of the session: the UI stores the flag, `select!` gets a command or a PDU (with its
length and the stage's answer), the next output is applied, or the task ends. -/
inductive SessionMove
  | close
  | command (command : Option SessionCommand)
  | frame (pdu : Except Text (Nat × StageAnswer)) (elapsedMs : Nat)
  | output (output : ActiveStageOutput)
  | finish
deriving DecidableEq, Repr

/-- The text of `map_session(error)`. -/
def mapSession (error : Text) : Text := "protocol: ".toList ++ error

/-- `fetch_add` on a counter of 64 bits. -/
def fetchAdd (counter n : Nat) : Nat := (counter + n) % UInt64.size

namespace SessionTask

def send (t : SessionTask) (event : RdpEvent) : SessionTask :=
  { t with events := t.events ++ [event] }

/-- The stage is set up, or the task is gone at once. -/
def spawn (started : Except Text Unit) (framebuffer : Framebuffer) : SessionTask :=
  let t : SessionTask := ⟨.running [], framebuffer, ⟨0, 0, 0, 0⟩, false, [], []⟩
  match started with
  | .ok _ => t
  | .error error =>
    { t.send (.closed ("cannot start the session: ".toList ++ error)) with phase := .ended }

def applyOutput (output : ActiveStageOutput) (t : SessionTask) : Option SessionTask :=
  match output with
  -- the frame is counted, and dropped
  | .responseFrame frame =>
    some { t with counters.bytesOut := fetchAdd t.counters.bytesOut frame.length }
  | .graphicsUpdate left top width height data => do
    let rect : DamageRect := ⟨left.toNat, top.toNat, width.toNat, height.toNat⟩
    let buffer ← t.framebuffer.blit rect data
    let (damage, framebuffer) := buffer.takeDamage
    some ({ t with framebuffer }.send (.frame damage framebuffer.width framebuffer.height))
  | .pointerPosition x y => some (t.send (.pointer 1 1 x.toNat y.toNat []))
  | .serverName name => some (t.send (.serverName name))
  | .desktopSize width height => do
    let framebuffer ← t.framebuffer.resize width.toNat height.toNat
    some ({ t with framebuffer }.send (.resized width.toNat height.toNat))
  | .terminate reason =>
    some (t.send (.closed ("the server ended the session: ".toList ++ reason)))
  | .pointerDefault | .pointerHidden | .serverRedirection | .clipboard | .other => some t

/-- An error is reported, and the loop is left. -/
def fail (t : SessionTask) (reason : Text) : SessionTask :=
  { t.send (.closed reason) with phase := .leaving }

def take (t : SessionTask) (answer : StageAnswer) : SessionTask :=
  match answer with
  | .ok outputs => { t with phase := .running outputs }
  | .error error => t.fail (mapSession error)

def onCommand (t : SessionTask) (command : Option SessionCommand) : SessionTask :=
  match command.bind SessionCommand.answer with
  | some answer => t.take answer
  -- the channel is closed, or the command is to disconnect
  | none => { t with phase := .leaving }

def onFrame (t : SessionTask) (pdu : Except Text (Nat × StageAnswer)) (elapsedMs : Nat) :
    SessionTask :=
  match pdu with
  | .error error =>
    t.fail (if t.closing then "the session was closed".toList else mapSession error)
  | .ok (length, answer) =>
    let counted := { t with counters.bytesIn := fetchAdd t.counters.bytesIn length }
    match answer with
    | .error _ => counted.take answer
    | .ok _ =>
      { counted with
        counters.frames := fetchAdd t.counters.frames 1
        counters.latencyMs := elapsedMs % UInt64.size }.take answer

/-- Behind the loop the connection is shut down, and the end is reported. -/
def finish (t : SessionTask) : SessionTask :=
  { t.send (.closed "the session ended".toList) with phase := .ended, closing := true }

/-- A move that the task cannot make where it is fails; so does an output whose arithmetic
panics. -/
def step (move : SessionMove) (t : SessionTask) : Option SessionTask :=
  match move, t.phase with
  | .close, _ => some { t with closing := true }
  | .command command, .running [] => some (t.onCommand command)
  | .frame pdu elapsedMs, .running [] => some (t.onFrame pdu elapsedMs)
  | .output output, .running (next :: outputs) =>
    if output = next then applyOutput output { t with phase := .running outputs } else none
  | .finish, .leaving => some t.finish
  | _, _ => none

end SessionTask

end RemoteDesktopTool
