import Mathlib.Data.List.AList
import RemoteDesktopTool.Errors
import RemoteDesktopTool.HostPatterns

namespace RemoteDesktopTool

inductive CertPolicy
  | verify
  | verifyOrPinned
  | trustOnFirstUse
deriving DecidableEq, Repr

inductive CertificateDecision
  | verifiedByCa
  | pinned (fingerprint : Text)
  | recordedOnFirstUse (fingerprint : Text)
deriving DecidableEq, Repr

/-- The file of the pin store; `parent` is the directory it lies in, if its path names one. -/
structure PinFile where
  path : Text
  parent : Option Text
deriving DecidableEq, Repr

/-- A set of pinned host fingerprints; every host has one pin at most. -/
structure PinnedCertificates where
  entries : AList fun _ : Text => Text
  path : Option PinFile
deriving DecidableEq

/-- The errors that the steps of `save` meet, `none` for a step that succeeds. -/
structure SaveFaults where
  createDir : Option Text
  encode : Option Text
  write : Option Text
  restrict : Option Text

def SaveFaults.none : SaveFaults := ⟨.none, .none, .none, .none⟩

def attempt (fault : Option Text) (report : Text → RdtError) : RdtResult Unit :=
  match fault with
  | some error => .error (report error)
  | none => .ok ()

namespace PinnedCertificates

def empty : PinnedCertificates := ⟨∅, none⟩

def get (x : Externals) (pins : PinnedCertificates) (host : Text) : Option Text :=
  pins.entries.lookup (x.strToLowercase host)

def pin (x : Externals) (pins : PinnedCertificates) (host fingerprint : Text) :
    PinnedCertificates :=
  { pins with entries := pins.entries.insert (x.strToLowercase host) fingerprint }

def save (pins : PinnedCertificates) (faults : SaveFaults) : RdtResult Unit :=
  match pins.path with
  | none => .error (.new .config "the pin store has no file".toList)
  | some file => do
    if let some parent := file.parent then
      attempt faults.createDir fun error => (RdtError.new .io error).withContext "path" parent
    attempt faults.encode fun error =>
      .new .config ("cannot encode the pin store: ".toList ++ error)
    attempt faults.write fun error => (RdtError.new .io error).withContext "path" file.path
    attempt faults.restrict fun error =>
      (RdtError.new .permission error).withContext "path" file.path

end PinnedCertificates

def hexEncode (bytes : List UInt8) : Text :=
  bytes.flatMap fun byte => [Nat.digitChar (byte.toNat / 16), Nat.digitChar (byte.toNat % 16)]

example : hexEncode [0x0A, 0xF3] = "0af3".toList := by decide

def sha256Fingerprint (x : Externals) (der : List UInt8) : Text :=
  "sha256:".toList ++ hexEncode (x.sha256 der)

structure CertificateVerifier where
  policy : CertPolicy
  pins : PinnedCertificates
  host : Text
deriving DecidableEq

/-- How the handshake of `ironrdp-tls` ends: with the leaf certificate of the server, unless the
connector cannot be made or the negotiation fails. -/
inductive Handshake
  | noConnector (error : Text)
  | failed (error : Text)
  | presented (der : List UInt8)
deriving DecidableEq, Repr

/-- Whether the chain counts as validated: that of every certificate with any bytes does. -/
def rustlsWebpkiVerified (der : List UInt8) : Bool := !der.isEmpty

namespace CertificateVerifier

/-- Evaluates a DER encoded leaf certificate; the verifier that is returned holds the pins as
the call leaves them. -/
def verify (x : Externals) (verifier : CertificateVerifier) (der : List UInt8)
    (caVerified : Bool) (faults : SaveFaults) :
    RdtResult CertificateDecision × CertificateVerifier :=
  let fingerprint := sha256Fingerprint x der
  if caVerified then (.ok .verifiedByCa, verifier)
  else
    match verifier.policy, verifier.pins.get x verifier.host with
    | .verify, _ =>
      (.error ((RdtError.new .tls ("the certificate presented by ".toList ++ verifier.host ++
        " is not signed by a trusted authority".toList)).withContext "fingerprint" fingerprint),
        verifier)
    | .verifyOrPinned, some expected =>
      if expected = fingerprint then (.ok (.pinned fingerprint), verifier)
      else
        (.error (.new .tls ("the certificate for ".toList ++ verifier.host ++
          " changed; pinned ".toList ++ expected ++ ", presented ".toList ++ fingerprint)),
          verifier)
    | .verifyOrPinned, none =>
      (.error ((RdtError.new .tls ("no trusted certificate is recorded for ".toList ++
        verifier.host)).withContext "fingerprint" fingerprint), verifier)
    | .trustOnFirstUse, some expected =>
      if expected = fingerprint then (.ok (.pinned fingerprint), verifier)
      else
        (.error (.new .tls ("the certificate for ".toList ++ verifier.host ++
          " changed since it was first trusted (pinned ".toList ++ expected ++ [')'])), verifier)
    | .trustOnFirstUse, none =>
      -- The pin is recorded first; that it cannot be saved refuses the certificate.
      let recorded := { verifier with pins := verifier.pins.pin x verifier.host fingerprint }
      ((recorded.pins.save faults).map fun _ => .recordedOnFirstUse fingerprint, recorded)

def decidedFingerprint (x : Externals) (der : List UInt8) (decision : CertificateDecision) : Text :=
  match decision with
  | .pinned fingerprint | .recordedOnFirstUse fingerprint => fingerprint
  | .verifiedByCa => sha256Fingerprint x der

/-- `tls::connect`: wraps the socket in TLS and applies the certificate policy. -/
def connect (x : Externals) (verifier : CertificateVerifier) (peer : Text)
    (handshake : Handshake) (faults : SaveFaults) : RdtResult Text × CertificateVerifier :=
  match handshake with
  | .noConnector error => (.error (.new .tls ("cannot initialise TLS: ".toList ++ error)), verifier)
  | .failed error =>
    (.error (.new .tls ("TLS negotiation with ".toList ++ peer ++ " failed: ".toList ++ error)),
      verifier)
  | .presented der =>
    let (decision, verifier) := verifier.verify x der (rustlsWebpkiVerified der) faults
    (decision.map (decidedFingerprint x der), verifier)

end CertificateVerifier

end RemoteDesktopTool
