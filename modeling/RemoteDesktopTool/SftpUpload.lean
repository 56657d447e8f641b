import Mathlib.Logic.Function.Basic
import RemoteDesktopTool.Errors

namespace RemoteDesktopTool

inductive TransferDirection
  | upload
  | download
deriving DecidableEq, Repr

/-- The rate of a transfer is shown only, and left out. -/
structure TransferProgress where
  direction : TransferDirection
  transferred : Nat
  total : Option Nat
deriving DecidableEq, Repr

def chunkSize : Nat := 262144

inductive StatusCode
  | noSuchFile
  | noSuchPath
  | permissionDenied
  | failure
  | other
deriving DecidableEq, Repr

/-- An error of the SFTP library; `status` is what the server answered, if it did. -/
structure SftpError where
  status : Option StatusCode
  text : Text
deriving DecidableEq, Repr

def ioError (what : String) (error : Text) : RdtError :=
  .new .io (what.toList ++ ": ".toList ++ error)

def mapSftp (error : SftpError) (path : Text) : RdtError :=
  let code : ErrorCode :=
    match error.status with
    | some .noSuchFile | some .noSuchPath => .notFound
    | some .permissionDenied => .permission
    | _ => .transfer
  (RdtError.new code error.text).withContext "path" path

/-- The files of the server. -/
abbrev RemoteFiles := Text → Option (List UInt8)

/-- One pass through the transfer loop: whether a cancel request is seen, the bytes that `read`
hands out, and the errors that reading and writing meet. -/
structure Turn where
  cancelled : Bool
  readFault : Option Text
  chunk : List UInt8
  writeFault : Option SftpError
  nonempty : chunk ≠ []
  fits : chunk.length ≤ chunkSize

/-- The pass in which the end of the local file is read. -/
structure LastTurn where
  cancelled : Bool
  readFault : Option Text
deriving DecidableEq, Repr

structure LocalFile where
  turns : List Turn
  last : LastTurn

/-- The errors that the steps around the loop meet, `none` for a step that succeeds. -/
structure UploadFaults where
  metadata : Option Text
  openLocal : Option Text
  create : Option SftpError
  removePart : Option SftpError
  flush : Option SftpError
  removeOld : Option SftpError
  rename : Option SftpError

/-- A transfer under way; `removals` are the attempts to remove a file and how they ended. -/
structure Transfer where
  files : RemoteFiles
  transferred : Nat
  progress : List TransferProgress
  removals : List (Text × Option SftpError)

def LocalFile.content (source : LocalFile) : List UInt8 := source.turns.flatMap Turn.chunk

def partPath (remote : Text) : Text := remote ++ ".rdt-part".toList

namespace Transfer

def removeFile (transfer : Transfer) (path : Text) (fault : Option SftpError) : Transfer :=
  { transfer with
    files := if fault.isNone then Function.update transfer.files path none else transfer.files
    removals := transfer.removals ++ [(path, fault)] }

def create (transfer : Transfer) (path : Text) : Transfer :=
  { transfer with files := Function.update transfer.files path (some []) }

def writeAll (transfer : Transfer) (path : Text) (chunk : List UInt8) : Transfer :=
  { transfer with
    files := Function.update transfer.files path ((transfer.files path).map (· ++ chunk)) }

def rename (transfer : Transfer) (source target : Text) : Transfer :=
  { transfer with files :=
    Function.update (Function.update transfer.files target (transfer.files source)) source none }

def report (transfer : Transfer) (total : Nat) : Transfer :=
  { transfer with progress := transfer.progress ++ [⟨.upload, transfer.transferred, some total⟩] }

def count (transfer : Transfer) (bytes : Nat) : Transfer :=
  { transfer with transferred := transfer.transferred + bytes }

/-- What the loop does when it sees the cancel request. -/
def cancelUpload (remote : Text) (faults : UploadFaults) (transfer : Transfer) :
    RdtResult Unit × Transfer :=
  (.error ((RdtError.new .cancelled "the upload was cancelled".toList).withContext "path" remote),
    transfer.removeFile (partPath remote) faults.removePart)

def uploadLoop (remote : Text) (faults : UploadFaults) (total : Nat) (last : LastTurn) :
    List Turn → Transfer → RdtResult Unit × Transfer
  | [], transfer =>
    if last.cancelled then transfer.cancelUpload remote faults
    else
      match last.readFault with
      | some error => (.error (ioError "read local file" error), transfer)
      | none => (.ok (), transfer)
  | turn :: turns, transfer =>
    if turn.cancelled then transfer.cancelUpload remote faults
    else
      match turn.readFault, turn.writeFault with
      | some error, _ => (.error (ioError "read local file" error), transfer)
      | none, some error => (.error (mapSftp error (partPath remote)), transfer)
      | none, none =>
        uploadLoop remote faults total last turns
          (((transfer.writeAll (partPath remote) turn.chunk).count turn.chunk.length).report total)

/-- The part of `upload` behind the loop. -/
def replaceRemote (remote : Text) (faults : UploadFaults) (total : Nat) (transfer : Transfer) :
    RdtResult Nat × Transfer :=
  match faults.flush with
  | some error => (.error (mapSftp error (partPath remote)), transfer)
  | none =>
    let cleared := transfer.removeFile remote faults.removeOld
    match faults.rename with
    | some error => (.error (mapSftp error remote), cleared)
    | none => (.ok transfer.transferred, (cleared.rename (partPath remote) remote).report total)

end Transfer

def upload (source : LocalFile) (remote : Text) (faults : UploadFaults) (files : RemoteFiles) :
    RdtResult Nat × Transfer :=
  let idle : Transfer := ⟨files, 0, [], []⟩
  let total := source.content.length
  match faults.metadata, faults.openLocal, faults.create with
  | some error, _, _ => (.error (ioError "read metadata" error), idle)
  | none, some error, _ => (.error (ioError "open local file" error), idle)
  | none, none, some error => (.error (mapSftp error (partPath remote)), idle)
  | none, none, none =>
    match (idle.create (partPath remote)).uploadLoop remote faults total source.last
        source.turns with
    | (.error error, transfer) => (.error error, transfer)
    | (.ok (), transfer) => transfer.replaceRemote remote faults total

end RemoteDesktopTool
