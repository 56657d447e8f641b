import RemoteDesktopTool.Certificates

namespace RemoteDesktopTool

def idBytes : Nat := 8

/-- The `identifier!` macro makes two such types; they differ in name only. -/
structure SessionId where
  bytes : List UInt8
  size : bytes.length = idBytes
deriving DecidableEq

structure ProfileId where
  bytes : List UInt8
  size : bytes.length = idBytes
deriving DecidableEq

namespace SessionId

def toText (id : SessionId) : Text := hexEncode id.bytes

/-- The identifier whose last byte is `n` and whose other bytes are zero. -/
def numbered (n : UInt8) : SessionId := ⟨[0, 0, 0, 0, 0, 0, 0, n], rfl⟩

end SessionId

namespace ProfileId

def toText (id : ProfileId) : Text := hexEncode id.bytes

def numbered (n : UInt8) : ProfileId := ⟨[0, 0, 0, 0, 0, 0, 0, n], rfl⟩

end ProfileId

end RemoteDesktopTool
