import RemoteDesktopTool.LossyUtf8
import RemoteDesktopTool.Redact
import RemoteDesktopTool.StoreFiles

namespace RemoteDesktopTool

/-- One captured log line, without its stamp. -/
structure LogEntry where
  level : Text
  target : Text
  message : Text
deriving DecidableEq

/-- Fixed capacity buffer of recent entries. -/
structure LogBuffer where
  entries : List LogEntry
  capacity : Nat
  dropped : Nat
deriving DecidableEq

namespace LogBuffer

def new (capacity : Nat) : LogBuffer := ⟨[], capacity, 0⟩

/-- The loop of `push`: the oldest entries go while the buffer is full. -/
def makeRoom (capacity : Nat) : List LogEntry → Nat → List LogEntry × Nat
  | [], dropped => ([], dropped)
  | entry :: rest, dropped =>
    if capacity ≤ (entry :: rest).length then makeRoom capacity rest (dropped + 1)
    else (entry :: rest, dropped)

def push (buffer : LogBuffer) (entry : LogEntry) : LogBuffer :=
  if buffer.capacity = 0 then buffer
  else
    let (entries, dropped) := makeRoom buffer.capacity buffer.entries buffer.dropped
    { buffer with entries := entries ++ [entry], dropped }

def clear (buffer : LogBuffer) : LogBuffer := { buffer with entries := [] }

end LogBuffer

inductive Level
  | trace
  | debug
  | info
  | warn
  | error
deriving DecidableEq, Repr

def Level.asStr : Level → Text
  | .trace => "trace".toList
  | .debug => "debug".toList
  | .info => "info".toList
  | .warn => "warn".toList
  | .error => "error".toList

def levelRank (level : Text) : Nat :=
  let name := level.map Char.toLower
  if name = "trace".toList then 0
  else if name = "debug".toList then 1
  else if name = "info".toList then 2
  else if name = "warn".toList then 3
  else if name = "error".toList then 4
  else 2

namespace LogBuffer

/-- Whether `filter` shows an entry; the needle is trimmed already. -/
def shows (needle : Text) (minLevel : Level) (entry : LogEntry) : Bool :=
  decide (levelRank minLevel.asStr ≤ levelRank entry.level) &&
    (needle.isEmpty || decide (needle.map Char.toLower <:+: entry.message.map Char.toLower) ||
      decide (needle.map Char.toLower <:+: entry.target.map Char.toLower))

def filter (buffer : LogBuffer) (needle : Text) (minLevel : Level) : List LogEntry :=
  buffer.entries.filter (shows needle.trim minLevel)

end LogBuffer

/-- How `write_all` of an inner writer ends, and what becomes of the writer. -/
abbrev WriteAll (W : Type) := W → List UInt8 → Except IoError Unit × W

structure RedactingWriter (W : Type) where
  inner : W
  redactor : Redactor
  buffer : LogBuffer
  pending : Text
  level : Option Text
  target : Option Text

namespace RedactingWriter

variable {W : Type}

def new (inner : W) (redactor : Redactor) (buffer : LogBuffer) : RedactingWriter W :=
  ⟨inner, redactor, buffer, [], none, none⟩

/-- Redacts a single line and mirrors it into the buffer. -/
def redactLine (w : RedactingWriter W) (line : Text) : Text × RedactingWriter W :=
  let redacted := w.redactor.redact line
  let entry : LogEntry := ⟨w.level.getD "INFO".toList, w.target.getD "rdt".toList, redacted⟩
  (redacted, { w with buffer := w.buffer.push entry })

def endsLine (c : Char) : Bool := c = '\n' || c = '\r'

def trimLine (line : Text) : Text := line.rdropWhile endsLine

/-- One round of the loop of `write`, with a line taken from the pending text. -/
def writeLine (writeAll : WriteAll W) (w : RedactingWriter W) (line : Text) :
    Except IoError Unit × RedactingWriter W :=
  let trimmed := trimLine line
  if trimmed.isEmpty then
    let (result, inner) := writeAll w.inner (Text.asBytes ['\n'])
    (result, { w with inner })
  else
    let (redacted, w) := w.redactLine trimmed
    match writeAll w.inner redacted.asBytes with
    | (.error error, inner) => (.error error, { w with inner })
    | (.ok (), inner) =>
      let (result, inner) := writeAll inner (Text.asBytes ['\n'])
      (result, { w with inner })

/-- The loop of `write`; an error leaves the lines behind it pending. -/
def drainLines (writeAll : WriteAll W) (w : RedactingWriter W) (pending : Text) :
    Except IoError Unit × RedactingWriter W :=
  if '\n' ∈ pending then
    let line := pending.takeWhile (· ≠ '\n') ++ ['\n']
    let rest := pending.drop line.length
    match writeLine writeAll { w with pending := rest } line with
    | (.error error, w) => (.error error, w)
    | (.ok (), w) => drainLines writeAll w rest
  else (.ok (), { w with pending })
termination_by pending.length
decreasing_by
  rename_i h
  have hpos := List.length_pos_of_mem h
  simp only [List.length_drop, List.length_append, List.length_singleton]
  omega

def write (writeAll : WriteAll W) (w : RedactingWriter W) (buf : List UInt8) :
    Except IoError Nat × RedactingWriter W :=
  let (result, w) := drainLines writeAll w (w.pending ++ fromUtf8Lossy buf)
  (result.map fun _ => buf.length, w)

/-- `make_writer_for`: a handle on the same sink, buffer and pending text. -/
def withMeta (w : RedactingWriter W) (level target : Text) : RedactingWriter W :=
  { w with level := some level, target := some target }

def flush (writeAll : WriteAll W) (flushInner : W → Except IoError Unit × W)
    (w : RedactingWriter W) : Except IoError Unit × RedactingWriter W :=
  if w.pending.isEmpty then
    let (result, inner) := flushInner w.inner
    (result, { w with inner })
  else
    let (redacted, w) := { w with pending := [] }.redactLine (trimLine w.pending)
    match writeAll w.inner redacted.asBytes with
    | (.error error, inner) => (.error error, { w with inner })
    | (.ok (), inner) =>
      let (result, inner) := flushInner inner
      (result, { w with inner })

/-- An inner writer that keeps all that it is sent. -/
def record : WriteAll (List UInt8) := fun sent bytes => (.ok (), sent ++ bytes)

def writes (w : RedactingWriter (List UInt8)) (pieces : List (List UInt8)) :
    RedactingWriter (List UInt8) :=
  pieces.foldl (fun w piece => (write record w piece).2) w

end RedactingWriter

end RemoteDesktopTool
