import RemoteDesktopTool.Base64
import RemoteDesktopTool.Strings

namespace RemoteDesktopTool

/-- What the code takes from the Unicode tables of the standard library and from other
crates; every result holds whatever these functions are. -/
structure Externals where
  charToLowercase : Char → Text
  strToLowercase : Text → Text
  base64Decode : Text → Option (List UInt8)
  base64Encode : List UInt8 → Text
  base64EncodeNoPad : List UInt8 → Text
  hmacSha1 : List UInt8 → List UInt8 → List UInt8
  sha256 : List UInt8 → List UInt8

/-- What is documented of the base64 engine. -/
structure Externals.LawfulBase64 (x : Externals) : Prop where
  decode_encode : ∀ bytes, x.base64Decode (x.base64Encode bytes) = some bytes
  isDigit : ∀ bytes, ∀ c ∈ x.base64Encode bytes, Base64.isDigit c = true
  ne_nil : ∀ bytes, bytes ≠ [] → x.base64Encode bytes ≠ []

/-- The externals on ASCII text, with the one base64 text that the samples hold. -/
def sampleExternals : Externals where
  charToLowercase c := [c.toLower]
  strToLowercase text := text.map Char.toLower
  base64Decode text := if text = "AAAA".toList then some [0, 0, 0] else none
  base64Encode _ := "AAAA".toList
  base64EncodeNoPad _ := []
  hmacSha1 _ _ := []
  sha256 _ := []

def base64Externals : Externals :=
  { sampleExternals with base64Decode := Base64.decode, base64Encode := Base64.encode }

theorem lawful_base64Externals : base64Externals.LawfulBase64 where
  decode_encode := Base64.decode_encode
  isDigit := fun _ _ => Base64.isDigit_of_mem
  ne_nil := fun _ => Base64.encode_ne_nil

/-- The state of the globbing loop; `star` is where the last `*` was met. -/
structure Glob where
  p : Nat
  t : Nat
  star : Option (Nat × Nat)
  star_le : ∀ s ∈ star, s.2 ≤ t

def Glob.start : Glob := ⟨0, 0, none, by simp⟩

def Glob.next (g : Glob) : Glob :=
  { g with
    p := g.p + 1
    t := g.t + 1
    star_le := fun s hs => Nat.le_succ_of_le (g.star_le s hs) }

def Glob.setStar (g : Glob) : Glob :=
  { g with
    p := g.p + 1
    star := some (g.p, g.t)
    star_le := by rintro s ⟨⟩; exact Nat.le_refl g.t }

def Glob.backtrack (starP starT : Nat) : Glob :=
  ⟨starP + 1, starT + 1, some (starP, starT + 1), by rintro s ⟨⟩; exact Nat.le_refl _⟩

def matchesChar (x : Externals) (pattern text : Text) (g : Glob) : Bool :=
  match pattern[g.p]?, text[g.t]? with
  | some c, some d => c = '?' || (x.charToLowercase c).head? = some d
  | _, _ => false

theorem lt_length_of_matchesChar {x : Externals} {pattern text : Text} {g : Glob}
    (h : matchesChar x pattern text g = true) : g.p < pattern.length := by
  unfold matchesChar at h
  split at h
  next c d hc hd => exact (List.getElem?_eq_some_iff.mp hc).1
  next => cases h

def Glob.base (g : Glob) : Nat := (g.star.map Prod.snd).getD 0

theorem Glob.base_le (g : Glob) : g.base ≤ g.t := by
  unfold Glob.base
  cases h : g.star with
  | none => exact Nat.zero_le g.t
  | some s => exact g.star_le s h

/-- What is left to do: going back moves the base forward, and in between the pattern is read
from left to right. -/
def Glob.remaining (pattern text : Text) (g : Glob) : Nat :=
  (text.length - g.base) * (pattern.length + 1) + (pattern.length - g.p)

theorem Glob.remaining_next {pattern text : Text} {g : Glob} (h : g.p < pattern.length) :
    g.next.remaining pattern text < g.remaining pattern text :=
  Nat.add_lt_add_left (Nat.sub_succ_lt_self _ _ h) _

theorem Glob.remaining_setStar {pattern text : Text} {g : Glob} (h : g.p < pattern.length) :
    g.setStar.remaining pattern text < g.remaining pattern text := by
  have hbase : text.length - g.t ≤ text.length - g.base := Nat.sub_le_sub_left g.base_le _
  exact Nat.add_lt_add_of_le_of_lt (Nat.mul_le_mul_right _ hbase) (Nat.sub_succ_lt_self _ _ h)

theorem Glob.remaining_backtrack {pattern text : Text} {g : Glob} {starP starT : Nat}
    (hs : g.star = some (starP, starT)) (ht : g.t < text.length) :
    (Glob.backtrack starP starT).remaining pattern text < g.remaining pattern text := by
  have hbase : g.base = starT := by rw [Glob.base, hs]; rfl
  have hle := g.base_le
  have hback : (Glob.backtrack starP starT).remaining pattern text =
      (text.length - (starT + 1)) * (pattern.length + 1) + (pattern.length - (starP + 1)) := rfl
  have hstep : text.length - starT = text.length - (starT + 1) + 1 := by omega
  rw [hback, Glob.remaining, hbase, hstep, Nat.succ_mul]
  omega

def wildcardLoop (x : Externals) (pattern text : Text) (g : Glob) : Bool :=
  if _ht : g.t < text.length then
    if _hc : matchesChar x pattern text g = true then wildcardLoop x pattern text g.next
    else if _hp : pattern[g.p]? = some '*' then wildcardLoop x pattern text g.setStar
    else
      match _hs : g.star with
      | some (starP, starT) => wildcardLoop x pattern text (.backtrack starP starT)
      | none => false
  else ((pattern.drop g.p).dropWhile (· = '*')).isEmpty
termination_by g.remaining pattern text
decreasing_by
  · exact Glob.remaining_next (lt_length_of_matchesChar _hc)
  · exact Glob.remaining_setStar (List.getElem?_eq_some_iff.mp _hp).1
  · exact Glob.remaining_backtrack _hs _ht

def wildcardMatch (x : Externals) (pattern text : Text) : Bool :=
  wildcardLoop x pattern (x.strToLowercase text) .start

/-- Splits `[host]:port` or `host:port`, handling IPv6 literals. -/
def splitHostPort (pattern : Text) : Text × Option UInt16 :=
  match Text.stripFront ['['] pattern with
  | some rest =>
    match Text.splitOnce ']' rest with
    | some (host, tail) => (host, (Text.stripFront [':'] tail).bind parseU16)
    | none => (rest, none)
  | none =>
    match Text.rsplitOnce ':' pattern with
    | some (host, port) => if ':' ∈ host then (pattern, none) else (host, parseU16 port)
    | none => (pattern, none)

/-- The name under which a host is recorded: with the port unless it is 22. -/
def recordedName (x : Externals) (host : Text) (port : UInt16) : Text :=
  if port = 22 then x.strToLowercase host
  else ['['] ++ x.strToLowercase host ++ [']', ':'] ++ decimal port.toNat

def hashedMatches (x : Externals) (body host : Text) (port : UInt16) : Bool :=
  match Text.splitOnce '|' body with
  | none => false
  | some (salt, digest) =>
    match x.base64Decode salt, x.base64Decode digest with
    | some salt, some digest => x.hmacSha1 salt (recordedName x host port).asBytes = digest
    | _, _ => false

def patternMatches (x : Externals) (pattern host : Text) (port : UInt16) : Bool :=
  match Text.stripFront "|1|".toList pattern with
  | some hashed => hashedMatches x hashed host port
  | none =>
    let (patternHost, patternPort) := splitHostPort pattern
    match patternPort with
    | some expected => if expected ≠ port then false else wildcardMatch x patternHost host
    | none => wildcardMatch x patternHost host

end RemoteDesktopTool
