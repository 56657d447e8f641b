import RemoteDesktopTool.HostKeyHandler
import RemoteDesktopTool.Ids

namespace RemoteDesktopTool

structure Endpoint where
  host : Text
  port : UInt16
deriving DecidableEq, Repr

structure SshOptions where
  hostKeyPolicy : HostKeyPolicy
deriving DecidableEq, Repr

structure RdpOptions where
  certPolicy : CertPolicy
deriving DecidableEq, Repr

/-- A saved profile; `D` holds the fields that are only stored and shown. -/
structure ConnectionProfile (D : Type) where
  id : ProfileId
  name : Text
  endpoint : Endpoint
  ssh : SshOptions
  rdp : RdpOptions
  tags : List Text
  details : D
deriving DecidableEq

namespace ConnectionProfile

variable {D : Type}

def fail (profile : ConnectionProfile D) (message : String) : RdtResult Unit :=
  .error ((RdtError.new .config message.toList).withContext "profile" profile.name)

def validate (profile : ConnectionProfile D) : RdtResult Unit :=
  if profile.name.trim.isEmpty then profile.fail "profile name must not be empty"
  else if 120 < profile.name.byteLen then
    profile.fail "profile name is longer than 120 characters"
  else if profile.endpoint.host.trim.isEmpty then profile.fail "host must not be empty"
  else if profile.endpoint.port = 0 then profile.fail "port must not be zero"
  else if profile.endpoint.host.any isWhitespace then
    profile.fail "host must not contain whitespace"
  else if profile.tags.any fun tag => tag.trim.isEmpty then profile.fail "tags must not be empty"
  else if profile.ssh.hostKeyPolicy ≠ .strict ∧ profile.ssh.hostKeyPolicy.autoAcceptsUnknown then
    profile.fail "host key policy must not auto-accept unknown keys"
  else
    match profile.rdp.certPolicy with
    | .verify | .verifyOrPinned | .trustOnFirstUse => .ok ()

/-- The profile that `ConnectionProfile::new` makes of an identifier and a name. -/
def named (n : UInt8) (name : String) : ConnectionProfile Unit :=
  ⟨.numbered n, name.toList, ⟨"host".toList, 22⟩, ⟨.strict⟩, ⟨.verify⟩, [], ()⟩

end ConnectionProfile

end RemoteDesktopTool
