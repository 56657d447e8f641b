import RemoteDesktopTool.OpenFiles
import RemoteDesktopTool.SftpUpload
import RemoteDesktopTool.StoreFiles

namespace RemoteDesktopTool

open OpenFiles

/-- What one call of `download` is asked for. -/
structure DownloadJob where
  remote : Text
  path : FilePath
deriving DecidableEq, Repr

/-- A file of the server, and the size that its metadata gives. -/
structure RemoteFile where
  content : List UInt8
  size : Option Nat
deriving DecidableEq, Repr

/-- Where a call stands: before its local file is created, before the remote file is open, in the
loop, behind it, or back with its result. -/
inductive DownloadStage
  | waiting
  | created (sink : Sink)
  | copying (sink : Sink) (transferred : Nat)
  | finishing (transferred : Nat)
  | returned (result : RdtResult Nat)
deriving DecidableEq

/-- The local file is open, or written and not yet moved into place. -/
def DownloadStage.UnderWay : DownloadStage → Prop
  | .created _ | .copying _ _ | .finishing _ => True
  | .waiting | .returned _ => False

structure DownloadCall where
  stage : DownloadStage
  progress : List TransferProgress
deriving DecidableEq

/-- What can end a call; `written` is what a write that fails has written. -/
inductive DownloadFault
  | metadata (error : SftpError)
  | createDirectory (error : Text)
  | create (error : Text)
  | openRemote (error : SftpError)
  | read (error : SftpError)
  | write (error : Text) (written : List UInt8)
  | flush (error : Text)
  | move (error : Text)
  | cancelled (removed : Bool)
deriving DecidableEq, Repr

/-- What a call does next. A read brings at most `count` bytes, and none at the end of the file. -/
inductive DownloadAction
  | create
  | openRemote
  | read (count : Nat)
  | move
  | fail (fault : DownloadFault)
deriving DecidableEq, Repr

/-- The local file under the name that it has while it is written. -/
def DownloadJob.temporary (job : DownloadJob) : Text := job.path.withExtension "rdt-part"

namespace DownloadFault

def report (remote : Text) : DownloadFault → RdtError
  | .metadata error | .openRemote error | .read error => mapSftp error remote
  | .createDirectory error => ioError "create directory" error
  | .create error => ioError "create local file" error
  | .write error _ => ioError "write local file" error
  | .flush error => ioError "flush local file" error
  | .move error => ioError "move file into place" error
  | .cancelled _ =>
    (RdtError.new .cancelled "the download was cancelled".toList).withContext "path" remote

def strikes : DownloadFault → DownloadStage → Bool
  | .metadata _, .waiting | .createDirectory _, .waiting | .create _, .waiting => true
  | .openRemote _, .created _ => true
  | .read _, .copying _ _ | .write _ _, .copying _ _ | .cancelled _, .copying _ _ => true
  | .flush _, .finishing _ | .move _, .finishing _ => true
  | _, _ => false

/-- What a fault leaves of the local files. -/
def leaves (job : DownloadJob) (folder : Folder Text UInt8) :
    DownloadFault → DownloadStage → Folder Text UInt8
  | .write _ written, .copying sink _ => folder.write sink written
  | .cancelled true, _ => folder.remove job.temporary
  | _, _ => folder

end DownloadFault

namespace DownloadCall

def start : DownloadCall := ⟨.waiting, []⟩

def move (call : DownloadCall) (stage : DownloadStage) : DownloadCall :=
  { call with stage := stage }

def report (call : DownloadCall) (transferred : Nat) (total : Option Nat) : DownloadCall :=
  { call with progress := call.progress ++ [⟨.download, transferred, total⟩] }

end DownloadCall

/-- One step of `download`; `none` for what the call does not do where it stands. -/
def DownloadJob.act (job : DownloadJob) (file : RemoteFile) (action : DownloadAction)
    (folder : Folder Text UInt8) (call : DownloadCall) :
    Option (Folder Text UInt8 × DownloadCall) :=
  match action, call.stage with
  | .create, .waiting =>
    some (folder.create job.temporary, call.move (.created ⟨folder.fileAt job.temporary, 0⟩))
  | .openRemote, .created sink => some (folder, call.move (.copying sink 0))
  | .read count, .copying sink transferred =>
    if 0 < count ∧ count ≤ chunkSize then
      let bytes := (file.content.drop transferred).take count
      if bytes.isEmpty then some (folder, call.move (.finishing transferred))
      else
        let sum := transferred + bytes.length
        some (folder.write sink bytes,
          (call.move (.copying ⟨sink.file, sink.offset + bytes.length⟩ sum)).report sum file.size)
    else none
  | .move, .finishing transferred =>
    if (folder.entries job.temporary).isSome then
      some (folder.rename job.temporary job.path.text,
        (call.move (.returned (.ok transferred))).report transferred file.size)
    else none
  | .fail fault, stage =>
    if fault.strikes stage then
      some (fault.leaves job folder stage,
        call.move (.returned (.error (fault.report job.remote))))
    else none
  | _, _ => none

/-- Calls of `download`, and the local files. -/
structure Downloads (ι : Type) where
  folder : Folder Text UInt8
  calls : ι → DownloadCall

namespace Downloads

variable {ι : Type} [DecidableEq ι]

omit [DecidableEq ι] in
def start (folder : Folder Text UInt8) : Downloads ι := ⟨folder, fun _ => .start⟩

/-- A step of one of the calls. -/
def step (jobs : ι → DownloadJob) (server : Text → RemoteFile) (s : ι × DownloadAction)
    (downloads : Downloads ι) : Option (Downloads ι) := do
  let (folder, call) ← (jobs s.1).act (server (jobs s.1).remote) s.2 downloads.folder
    (downloads.calls s.1)
  some ⟨folder, Function.update downloads.calls s.1 call⟩

end Downloads

end RemoteDesktopTool
