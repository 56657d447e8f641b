import RemoteDesktopTool.KnownHostsFile
import RemoteDesktopTool.Redact
import RemoteDesktopTool.Sessions

namespace RemoteDesktopTool

open FileSteps

/-- One audit record: the event, with its stamp in milliseconds and its profile. -/
structure AuditRecord extends AuditEvent where
  stamp : UInt64
  profile : Option Text
deriving DecidableEq

/-- `serde_json` on audit records; of a line that is no record nothing is kept. -/
structure AuditJson where
  toString : AuditRecord → Except Text Text
  fromStr : Text → Option AuditRecord

structure AuditLog where
  path : Text
  redactor : Redactor

/-- Where an append breaks off, with the bytes that were written before. -/
inductive AppendFault
  | openFile (error : IoError)
  | write (count : Nat) (error : IoError)
  | flush (error : IoError)

/-- A file that is missing is created. -/
def appendTo (files : Files Text UInt8) (path : Text) (bytes : List UInt8) : Files Text UInt8 :=
  Function.update files path (some ((files path).getD [] ++ bytes))

namespace AuditLog

/-- The record as it is written. -/
def redactedEvent (log : AuditLog) (event : AuditRecord) : AuditRecord :=
  { event with detail := log.redactor.redact event.detail }

/-- Appends one record. -/
def record (json : AuditJson) (log : AuditLog) (event : AuditRecord) (fault : Option AppendFault)
    (files : Files Text UInt8) : RdtResult Unit × Files Text UInt8 :=
  match json.toString (log.redactedEvent event) with
  | .error error => (.error (.new .internal ("cannot encode audit event: ".toList ++ error)), files)
  | .ok text =>
    let line := Text.asBytes (text ++ ['\n'])
    match fault with
    | none => (.ok (), appendTo files log.path line)
    | some (.openFile error) => (.error (.fromIo error), files)
    | some (.write count error) =>
      (.error (.fromIo error), appendTo files log.path (line.take count))
    | some (.flush error) => (.error (.fromIo error), appendTo files log.path line)

end AuditLog

/-- The records among the lines of a text. -/
def AuditJson.events (json : AuditJson) (content : Text) : List AuditRecord :=
  content.lines.filterMap json.fromStr

/-- Reads the last `limit` records of an audit file. -/
def readRecentFrom (json : AuditJson) (path : Text) (limit : Nat) (files : Files Text UInt8) :
    RdtResult (List AuditRecord) :=
  match readToString path files with
  | .error error => if error.kind = .notFound then .ok [] else .error (.fromIo error)
  | .ok content =>
    let events := json.events content
    .ok (events.drop (events.length - limit))

def AuditLog.readRecent (json : AuditJson) (log : AuditLog) (limit : Nat)
    (files : Files Text UInt8) : RdtResult (List AuditRecord) :=
  readRecentFrom json log.path limit files

end RemoteDesktopTool
