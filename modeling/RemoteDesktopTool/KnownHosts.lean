import RemoteDesktopTool.Errors
import RemoteDesktopTool.HostPatterns

namespace RemoteDesktopTool

inductive HostKeyStatus
  | trusted
  | unknown
  | changed (knownFingerprint knownKeyType : Text)
  | revoked
  | excluded
deriving DecidableEq, Repr

namespace HostKeyStatus

def isFatal (status : HostKeyStatus) : Bool :=
  match status with
  | changed _ _ | revoked | excluded => true
  | _ => false

def toText (status : HostKeyStatus) : Text :=
  match status with
  | trusted => "host key matches the recorded key".toList
  | unknown => "host key is not recorded yet".toList
  | changed knownFingerprint knownKeyType =>
    "host key changed; recorded ".toList ++ knownKeyType ++ [' '] ++ knownFingerprint
  | revoked => "host key has been revoked".toList
  | excluded => "host is excluded by a negated pattern".toList

end HostKeyStatus

inductive Marker
  | none
  | certAuthority
  | revoked
deriving DecidableEq, Repr

/-- A marker as it stands in front of a line. -/
def Marker.toText : Marker → Text
  | .none => []
  | .certAuthority => "@cert-authority ".toList
  | .revoked => "@revoked ".toList

structure KnownHostEntry where
  marker : Marker
  patterns : List Text
  keyType : Text
  key : List UInt8
  comment : Text
  line : Nat
deriving DecidableEq, Repr

def malformed (line : Nat) : RdtError :=
  (RdtError.new .config "malformed known_hosts line".toList).withContext "line" (decimal line)

/-- Computes the OpenSSH style `SHA256:<base64>` fingerprint of a key blob. -/
def fingerprint (x : Externals) (key : List UInt8) : Text :=
  "SHA256:".toList ++ x.base64EncodeNoPad (x.sha256 key)

def markerOf (first : Text) : Marker :=
  if first = "@cert-authority".toList then .certAuthority
  else if first = "@revoked".toList then .revoked
  else .none

namespace KnownHostEntry

/-- Parses one line; `none` for blank lines and comments. -/
def parse (x : Externals) (line : Text) (number : Nat) : RdtResult (Option KnownHostEntry) :=
  let trimmed := line.trim
  if trimmed.isEmpty || trimmed.head? = some '#' then .ok none
  else
    match trimmed.splitWhitespace with
    | [] => .ok none
    | first :: fields =>
      let marker := markerOf first
      -- Behind a marker the patterns are the next field.
      match (if marker = .none then first :: fields else fields) with
      | patternsField :: keyType :: encoded :: comment =>
        match x.base64Decode encoded with
        | none => .error (malformed number)
        | some key =>
          if key.isEmpty then .error (malformed number)
          else .ok (some
            { marker
              patterns := patternsField.splitOn ','
              keyType
              key
              comment := List.intercalate [' '] comment
              line := number })
      | _ => .error (malformed number)

def negation (pattern : Text) : Bool × Text :=
  match Text.stripFront ['!'] pattern with
  | some rest => (true, rest)
  | none => (false, pattern)

def matchesLoop (x : Externals) (host : Text) (port : UInt16) : List Text → Bool → Bool
  | [], matched => matched
  | pattern :: patterns, matched =>
    let (negated, pattern) := negation pattern
    if patternMatches x pattern host port then
      if negated then false else matchesLoop x host port patterns true
    else matchesLoop x host port patterns matched

def «matches» (x : Externals) (entry : KnownHostEntry) (host : Text) (port : UInt16) : Bool :=
  matchesLoop x host port entry.patterns false

/-- Serialises the entry back to `known_hosts` syntax. -/
def toLine (x : Externals) (entry : KnownHostEntry) : Text :=
  let comment := if entry.comment.isEmpty then [] else ' ' :: entry.comment
  entry.marker.toText ++ List.intercalate [','] entry.patterns ++ ' ' :: entry.keyType ++
    ' ' :: x.base64Encode entry.key ++ comment

end KnownHostEntry

structure KnownHosts where
  entries : List KnownHostEntry
  path : Option Text
deriving DecidableEq, Repr

namespace KnownHosts

def empty : KnownHosts := ⟨[], none⟩

def parse (x : Externals) (text : Text) : KnownHosts where
  entries := text.lines.zipIdx.filterMap fun (line, index) =>
    match KnownHostEntry.parse x line (index + 1) with
    | .ok entry => entry
    | .error _ => none
  path := none

/-- The loop of `check`, with the first entries that hold another key. -/
def checkLoop (x : Externals) (host : Text) (port : UInt16) (keyType : Text) (key : List UInt8) :
    List KnownHostEntry → Option KnownHostEntry → Option KnownHostEntry → HostKeyStatus
  | [], some entry, _ => .changed (fingerprint x entry.key) entry.keyType
  -- A different algorithm only is `unknown` as well.
  | [], none, some _ => .unknown
  | [], none, none => .unknown
  | entry :: entries, sameType, otherType =>
    if !entry.matches x host port then checkLoop x host port keyType key entries sameType otherType
    else if entry.key = key then
      match entry.marker with
      | .revoked => .revoked
      | .certAuthority => checkLoop x host port keyType key entries sameType otherType
      | .none => .trusted
    else if entry.marker = .revoked then
      checkLoop x host port keyType key entries sameType otherType
    else if entry.keyType = keyType then
      checkLoop x host port keyType key entries (sameType.or (some entry)) otherType
    else checkLoop x host port keyType key entries sameType (otherType.or (some entry))

def check (x : Externals) (db : KnownHosts) (host : Text) (port : UInt16) (keyType : Text)
    (key : List UInt8) : HostKeyStatus :=
  checkLoop x host port keyType key db.entries none none

/-- Records a key the user has explicitly accepted, in place of the previous ones. -/
def accept (x : Externals) (db : KnownHosts) (host : Text) (port : UInt16) (keyType : Text)
    (key : List UInt8) (comment : Text) : KnownHosts :=
  let kept := db.entries.filter fun entry =>
    !(entry.marker = .none && entry.keyType = keyType && entry.matches x host port)
  { db with
    entries := kept ++
      [{ marker := .none
         patterns := [recordedName x host port]
         keyType
         key
         comment
         line := 0 }] }

/-- Removes every entry for a host; the number is how many were dropped. -/
def forget (x : Externals) (db : KnownHosts) (host : Text) (port : UInt16) : Nat × KnownHosts :=
  let kept := db.entries.filter fun entry => !entry.matches x host port
  (db.entries.length - kept.length, { db with entries := kept })

def toStringLossy (x : Externals) (db : KnownHosts) : Text :=
  db.entries.flatMap fun entry => entry.toLine x ++ ['\n']

end KnownHosts

end RemoteDesktopTool
