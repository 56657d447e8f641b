import RemoteDesktopTool.Certificates
import RemoteDesktopTool.FileSteps
import RemoteDesktopTool.TextSplits

namespace RemoteDesktopTool

open FileSteps

inductive IoErrorKind
  | permissionDenied
  | notFound
  | timedOut
  | connectionRefused
  | connectionReset
  | connectionAborted
  | unexpectedEof
  | interrupted
  | other
deriving DecidableEq, Repr

structure IoError where
  kind : IoErrorKind
  text : Text
deriving DecidableEq, Repr

/-- `From<std::io::Error>`. -/
def RdtError.fromIo (error : IoError) : RdtError :=
  let code : ErrorCode :=
    match error.kind with
    | .permissionDenied => .permission
    | .notFound => .io
    | .timedOut => .timeout
    | .connectionRefused | .connectionReset | .connectionAborted | .unexpectedEof => .network
    | .interrupted => .cancelled
    | .other => .io
  .new code error.text

/-- A path whose last component is a file name; `directory` ends in its `/`, if there is any. -/
structure FilePath where
  directory : Text
  name : Text
deriving DecidableEq, Repr

namespace FilePath

def text (path : FilePath) : Text := path.directory ++ path.name

/-- The parent and the last component of a path that is given as a text. -/
def ofText (text : Text) : FilePath :=
  match text.rsplitOnce '/' with
  | some (directory, name) => ⟨directory ++ ['/'], name⟩
  | none => ⟨[], text⟩

theorem text_ofText (path : Text) : (ofText path).text = path := by
  unfold ofText
  split
  next directory name hsplit =>
    obtain ⟨htext, _⟩ := rsplitOnce_eq_some hsplit
    rw [htext, text, List.append_assoc]
    rfl
  next => rfl

def join (directory : Text) (name : String) : FilePath := ⟨directory ++ ['/'], name.toList⟩

def fileStem (path : FilePath) : Text :=
  match path.name.rsplitOnce '.' with
  | some (before, _) => if before.isEmpty then path.name else before
  | none => path.name

def withExtension (path : FilePath) (extension : String) : Text :=
  path.directory ++ path.fileStem ++ '.' :: extension.toList

end FilePath

/-- The steps of a save, with what each reports when it fails. -/
abbrev Program := List (Step Text UInt8 × (IoError → RdtError))

def Program.steps (program : Program) : List (Step Text UInt8) := program.map Prod.fst

/-- `atomic_write` of the configuration store. -/
def atomicWrite (path : FilePath) (contents : List UInt8) : Program :=
  let temporary := path.withExtension "tmp"
  let report (what : String) (error : IoError) : RdtError :=
    (RdtError.new .io (what.toList ++ ": ".toList ++ error.text)).withContext "path" path.text
  [(.createDir path.directory, report "cannot create directory"),
    (.create temporary, report "cannot create file"),
    (.restrict temporary, fun error =>
      (RdtError.new .permission error.text).withContext "path" temporary),
    (.write temporary contents, report "cannot write file"),
    (.sync temporary, report "cannot flush file"),
    (.rename temporary path.text, report "cannot replace file")]

/-- What `Vault::save` does with the encrypted bytes. -/
def vaultWrite (path : FilePath) (bytes : List UInt8) : Program :=
  let temporary := path.withExtension "vault.tmp"
  [(.createDir path.directory, .fromIo), (.create temporary, .fromIo),
    (.write temporary bytes, .fromIo), (.sync temporary, .fromIo),
    (.restrict temporary, .fromIo), (.rename temporary path.text, .fromIo)]

/-- What `KnownHosts::save` and `PinnedCertificates::save` do with their text; `fs::write` creates
the file and writes to it. -/
def overwrite (path : FilePath) (bytes : List UInt8) : Program :=
  let report (error : IoError) : RdtError :=
    (RdtError.new .io error.text).withContext "path" path.text
  [(.createDir path.directory, fun error =>
      (RdtError.new .io error.text).withContext "path" path.directory),
    (.create path.text, report), (.write path.text bytes, report),
    (.restrict path.text, fun error =>
      (RdtError.new .permission error.text).withContext "path" path.text)]

/-- The temporary name of a vault is never its own. -/
theorem withExtension_ne (path : FilePath) {extension : String} (h : '.' ∈ extension.toList) :
    path.text ≠ path.withExtension extension := by
  intro heq
  unfold FilePath.text FilePath.withExtension at heq
  rw [List.append_assoc] at heq
  have hname := List.append_cancel_left heq
  unfold FilePath.fileStem at hname
  split at hname
  next before rest hsplit =>
    obtain ⟨htext, hrest⟩ := rsplitOnce_eq_some hsplit
    split at hname
    next =>
      have hlen := congrArg List.length hname
      rw [List.length_append, List.length_cons] at hlen
      omega
    next =>
      rw [htext] at hname
      have htail := List.append_cancel_left hname
      rw [List.cons.injEq] at htail
      exact hrest (htail.2 ▸ h)
  next =>
    have hlen := congrArg List.length hname
    rw [List.length_append, List.length_cons] at hlen
    omega

end RemoteDesktopTool
