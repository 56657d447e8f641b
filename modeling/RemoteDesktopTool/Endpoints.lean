import RemoteDesktopTool.HostNames
import RemoteDesktopTool.Profiles
import RemoteDesktopTool.Sessions

namespace RemoteDesktopTool

def Protocol.defaultPort : Protocol → UInt16
  | .ssh => 22
  | .rdp => 3389

def parsePort (text : Text) : RdtResult UInt16 :=
  match parseU16 text.trim with
  | some port => .ok port
  | none => .error (.new .invalidInput ("invalid port '".toList ++ text ++ ['\'']))

def validateHost (host : Text) : RdtResult Unit :=
  if host.isEmpty then .error (.new .invalidInput "host must not be empty".toList)
  else if 253 < host.byteLen then .error (.new .invalidInput "host name too long".toList)
  else if host.any isWhitespace then
    .error (.new .invalidInput "host must not contain whitespace".toList)
  else if '/' ∈ host ∨ '@' ∈ host then
    .error (.new .invalidInput "host must not contain '/' or '@'".toList)
  else .ok ()

namespace Endpoint

def new (host : Text) (port : UInt16) : RdtResult Endpoint :=
  match validateHost host with
  | .ok _ => .ok ⟨host, port⟩
  | .error error => .error error

/-- `Self::new(host, parse_port(port_text)?)`. -/
def withPort (host portText : Text) : RdtResult Endpoint :=
  match parsePort portText with
  | .ok port => new host port
  | .error error => .error error

/-- Builds an endpoint from `host` or `host:port`; IPv6 literals may carry brackets. -/
def parse (text : Text) (protocol : Protocol) : RdtResult Endpoint :=
  let text := text.trim
  if text.isEmpty then .error (.new .invalidInput "empty host".toList)
  else
    match Text.stripFront ['['] text with
    | some rest =>
      match Text.splitOnce ']' rest with
      | none => .error (.new .invalidInput "unterminated IPv6 literal".toList)
      | some (host, remainder) =>
        match Text.stripFront [':'] remainder with
        | some portText => withPort host portText
        | none =>
          if remainder.isEmpty then new host protocol.defaultPort
          else
            .error (.new .invalidInput ("unexpected suffix '".toList ++ remainder ++
              "' after IPv6 literal".toList))
    | none =>
      match Text.rsplitOnce ':' text with
      | some (host, portText) =>
        if host.isEmpty then new text protocol.defaultPort else withPort host portText
      | none => new text protocol.defaultPort

def toText (endpoint : Endpoint) : Text :=
  if ':' ∈ endpoint.host then
    '[' :: endpoint.host ++ ']' :: ':' :: decimal endpoint.port.toNat
  else endpoint.host ++ ':' :: decimal endpoint.port.toNat

end Endpoint

end RemoteDesktopTool
