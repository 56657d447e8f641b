import RemoteDesktopTool.CertificateTrust
import RemoteDesktopTool.KnownHostsFile

namespace RemoteDesktopTool

open FileSteps

/-- What the code takes from `serde_json`; the order in which the entries are written is open. -/
structure PinCodec where
  encode : (AList fun _ : Text => Text) → Text
  decode : Text → Except Text (AList fun _ : Text => Text)

/-- Decoding undoes encoding. -/
def PinCodec.Undoes (codec : PinCodec) : Prop :=
  ∀ entries, ∃ entries', codec.decode (codec.encode entries) = .ok entries' ∧
    ∀ host, entries'.lookup host = entries.lookup host

namespace PinnedCertificates

/-- Loads the pin store; a missing file yields an empty one. -/
def load (codec : PinCodec) (file : PinFile) (files : Files Text UInt8) :
    RdtResult PinnedCertificates :=
  match readToString file.path files with
  | .error error =>
    if error.kind = .notFound then .ok empty
    else .error ((RdtError.new .io error.text).withContext "path" file.path)
  | .ok text =>
    match codec.decode text with
    | .error error =>
      .error ((RdtError.new .config ("cannot parse the pin store: ".toList ++ error)).withContext
        "path" file.path)
    | .ok entries => .ok ⟨entries, some file⟩

/-- `save`, with what it does to the files if none of its steps fails. -/
def saveFile (codec : PinCodec) (pins : PinnedCertificates) (files : Files Text UInt8) :
    RdtResult Unit × Files Text UInt8 :=
  match pins.path with
  | none => (.error (.new .config "the pin store has no file".toList), files)
  | some file =>
    perform (overwrite (.ofText file.path) (codec.encode pins.entries).asBytes) none files

variable {codec : PinCodec} {file : PinFile} {files : Files Text UInt8}

theorem saveFile_result (codec : PinCodec) (pins : PinnedCertificates)
    (files : Files Text UInt8) : (pins.saveFile codec files).1 = pins.save .none := by
  unfold saveFile save
  cases pins.path with
  | none => rfl
  | some file =>
    obtain ⟨path, parent⟩ := file
    cases parent with
    | none => rfl
    | some parent => rfl

theorem saveFile_attached {pins : PinnedCertificates} (hpath : pins.path = some file)
    (files : Files Text UInt8) :
    (pins.saveFile codec files).2 file.path = some (codec.encode pins.entries).asBytes := by
  have hwritten := append_created files file.path (codec.encode pins.entries).asBytes
  rw [saveFile, hpath, ← hwritten]
  simp only [perform, overwrite, FilePath.text_ofText]
  rfl

end PinnedCertificates

/-- A connection to a server, by the certificate that it presents. -/
structure PinConnection where
  host : Text
  der : List UInt8
deriving DecidableEq, Repr

namespace PinConnection

def verifier (conn : PinConnection) (pins : PinnedCertificates) : CertificateVerifier where
  policy := .trustOnFirstUse
  pins := pins
  host := conn.host

/-- Loads the pins and verifies the certificate, which no trusted root vouches for. A `save` is
reached, and succeeds, exactly when the answer is that the certificate has been recorded. -/
def connect (x : Externals) (codec : PinCodec) (file : PinFile) (files : Files Text UInt8)
    (conn : PinConnection) : RdtResult CertificateDecision × Files Text UInt8 :=
  match PinnedCertificates.load codec file files with
  | .error error => (.error error, files)
  | .ok pins =>
    let (decision, after) := (conn.verifier pins).verify x conn.der false .none
    match decision with
    | .ok (.recordedOnFirstUse _) => (decision, (after.pins.saveFile codec files).2)
    | _ => (decision, files)

def Accepted (x : Externals) (codec : PinCodec) (file : PinFile) (files : Files Text UInt8)
    (conn : PinConnection) : Prop :=
  ∃ decision, (conn.connect x codec file files).1 = .ok decision

/-- The files behind a run of connections. -/
def filesAfter (x : Externals) (codec : PinCodec) (file : PinFile) (files : Files Text UInt8)
    (conns : List PinConnection) : Files Text UInt8 :=
  Runs.after (fun files conn => (conn.connect x codec file files).2) files conns

/-- The fingerprints that the file holds, by the names of the hosts in lower case. -/
def recorded (codec : PinCodec) (file : PinFile) (files : Files Text UInt8) (name : Text) :
    Option Text :=
  match PinnedCertificates.load codec file files with
  | .error _ => none
  | .ok pins => pins.entries.lookup name

/-- The name and the fingerprint that a connection would record. -/
def use (x : Externals) (conn : PinConnection) : Text × Text :=
  (x.strToLowercase conn.host, sha256Fingerprint x conn.der)

end PinConnection

end RemoteDesktopTool
