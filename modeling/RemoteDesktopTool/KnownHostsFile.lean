import RemoteDesktopTool.CrashSafety
import RemoteDesktopTool.HostKeyHandler
import RemoteDesktopTool.KnownHostsAccept
import RemoteDesktopTool.Runs
import RemoteDesktopTool.Utf8Text

namespace RemoteDesktopTool

open FileSteps KnownHostEntry

/-- `fs::read_to_string`. -/
def readToString (path : Text) (files : Files Text UInt8) : Except IoError Text :=
  match files path with
  | none => .error ⟨.notFound, "No such file or directory (os error 2)".toList⟩
  | some bytes =>
    match Parser.strFromUtf8 bytes with
    | none => .error ⟨.other, "stream did not contain valid UTF-8".toList⟩
    | some text => .ok text

namespace KnownHosts

/-- Reads a `known_hosts` file; a missing file yields an empty database. -/
def load (x : Externals) (path : Text) (files : Files Text UInt8) : RdtResult KnownHosts :=
  match readToString path files with
  | .ok text => .ok { parse x text with path := some path }
  | .error error =>
    if error.kind = .notFound then .ok empty
    else .error ((RdtError.new .io error.text).withContext "path" path)

def save (x : Externals) (db : KnownHosts) (failure : Option (Failure IoError))
    (files : Files Text UInt8) : RdtResult Unit × Files Text UInt8 :=
  match db.path with
  | none => (.error (.new .config "the known hosts database has no file".toList), files)
  | some path => perform (overwrite (.ofText path) (db.toStringLossy x).asBytes) failure files

end KnownHosts

/-- A connection to a server that presents a key, and the user in front of it. -/
structure HostConnection where
  host : Text
  port : UInt16
  policy : HostKeyPolicy
  keyType : Text
  key : List UInt8
  user : PromptUser

namespace HostConnection

def handler (conn : HostConnection) (db : KnownHosts) : HandlerRef where
  knownHosts := db
  host := conn.host
  port := conn.port
  policy := conn.policy
  acceptedFingerprint := none

/-- Loads the file and checks the key; with what `save` returns, if the user chose to save the
key. `remember_host_key` only logs it. -/
def connect (x : Externals) (path : Text) (files : Files Text UInt8) (conn : HostConnection) :
    Option (RdtResult Unit) × Files Text UInt8 :=
  match KnownHosts.load x path files with
  | .error _ => (none, files)
  | .ok db =>
    let check := (conn.handler db).checkServerKey x conn.keyType conn.key conn.user
    if check.asked ≠ [] ∧ conn.user.answer = some .acceptAndSave then
      let (result, files) := check.handler.knownHosts.save x none files
      (some result, files)
    else (none, files)

/-- The user is asked about unknown keys, and saves them. -/
def SavesKeys (conn : HostConnection) : Prop :=
  conn.policy = .acceptNew ∧ conn.user.listening = true ∧ conn.user.answer = some .acceptAndSave

end HostConnection

namespace HandlerRef

variable {x : Externals} {handler : HandlerRef} {keyType : Text} {key : List UInt8}
  {user : PromptUser}

theorem checkServerKey_of_saved (h : handler.status x keyType key = .unknown)
    (hpolicy : handler.policy = .acceptNew) (hlistening : user.listening = true)
    (hanswer : user.answer = some .acceptAndSave) :
    (handler.checkServerKey x keyType key user).asked ≠ [] ∧
      (handler.checkServerKey x keyType key user).handler.knownHosts =
        handler.knownHosts.accept x handler.host handler.port keyType key handler.host := by
  have hverify := verifyHostKey_of_not_trusted (not_trusted_of_unknown h)
  have hfatal : HostKeyStatus.unknown.isFatal = false := rfl
  have hstrict : ¬HostKeyPolicy.acceptNew = .strict := HostKeyPolicy.noConfusion
  simp only [checkServerKey, hverify, check_of_status h, hfatal, Bool.false_eq_true, if_false,
    hpolicy, hstrict, hlistening, Bool.not_true, hanswer]
  exact ⟨List.cons_ne_nil _ _, rfl⟩

/-- The user is asked about unknown keys only. -/
theorem unknown_of_asked (h : (handler.checkServerKey x keyType key user).asked ≠ []) :
    handler.status x keyType key = .unknown ∧ handler.policy = .acceptNew ∧
      user.listening = true := by
  by_cases hfatal : (handler.status x keyType key).isFatal = true
  · have hnot : handler.status x keyType key ≠ .trusted := by
      intro htrusted
      rw [htrusted] at hfatal
      cases hfatal
    have hcheck : (handler.knownHosts.check x handler.host handler.port keyType key).isFatal =
        true := hfatal
    simp only [checkServerKey, verifyHostKey_of_not_trusted hnot, hcheck, if_true] at h
    exact absurd rfl h
  rcases trusted_or_unknown (Bool.not_eq_true _ ▸ hfatal) with htrusted | hunknown
  · have hverify : handler.verifyHostKey x keyType key = .ok true := by
      unfold status at htrusted
      rw [verifyHostKey, htrusted]
    simp only [checkServerKey, hverify] at h
    exact absurd rfl h
  · have hverify := verifyHostKey_of_not_trusted (not_trusted_of_unknown hunknown)
    have hcalm : HostKeyStatus.unknown.isFatal = false := rfl
    simp only [checkServerKey, hverify, check_of_status hunknown, hcalm, Bool.false_eq_true,
      if_false] at h
    cases hpolicy : handler.policy with
    | strict =>
      rw [if_pos hpolicy] at h
      exact absurd rfl h
    | acceptNew =>
      cases hlistening : user.listening with
      | false =>
        simp only [hpolicy, hlistening] at h
        exact absurd rfl h
      | true => exact ⟨hunknown, rfl, rfl⟩

end HandlerRef

end RemoteDesktopTool
