import Mathlib.Data.List.DropRight

namespace RemoteDesktopTool

/-- Text, character by character. -/
abbrev Text := List Char

def Text.asBytes (text : Text) : List UInt8 := text.flatMap String.utf8EncodeChar

def Text.byteLen (text : Text) : Nat := text.asBytes.length

def isWhitespace (c : Char) : Bool :=
  let n := c.toNat
  (0x09 ≤ n && n ≤ 0x0D) || n = 0x20 || n = 0x85 || n = 0xA0 || n = 0x1680 ||
    (0x2000 ≤ n && n ≤ 0x200A) || n = 0x2028 || n = 0x2029 || n = 0x202F || n = 0x205F ||
    n = 0x3000

/-- `str::eq_ignore_ascii_case`; `Char.toLower` changes `A` to `Z` only. -/
def Text.eqIgnoreAsciiCase (a b : Text) : Bool := a.map Char.toLower = b.map Char.toLower

def Text.trim (text : Text) : Text := (text.dropWhile isWhitespace).rdropWhile isWhitespace

def Text.splitWhitespace (text : Text) : List Text :=
  (text.splitOnP isWhitespace).filter fun word => !word.isEmpty

/-- The line that a `\n` ends, without a `\r` in front of it. -/
def stripReturn (line : Text) : Text :=
  if line.getLast? = some '\r' then line.dropLast else line

/-- `str::lines`: the text behind the last `\n` is a line of its own, unless it is empty. -/
def Text.lines (text : Text) : List Text :=
  let pieces := text.splitOn '\n'
  let last := pieces.getLast?.getD []
  pieces.dropLast.map stripReturn ++ if last.isEmpty then [] else [last]

/-- `str::strip_prefix`. -/
def Text.stripFront (front text : Text) : Option Text :=
  if front.isPrefixOf text then some (text.drop front.length) else none

/-- `str::split_once`, at the first occurrence. -/
def Text.splitOnce (c : Char) (text : Text) : Option (Text × Text) :=
  if c ∈ text then some (text.takeWhile (· ≠ c), (text.dropWhile (· ≠ c)).tail) else none

/-- `str::rsplit_once`, at the last occurrence. -/
def Text.rsplitOnce (c : Char) (text : Text) : Option (Text × Text) :=
  if c ∈ text then some ((text.rdropWhile (· ≠ c)).dropLast, text.rtakeWhile (· ≠ c)) else none

/-- `<u16 as FromStr>::from_str`: digits behind an optional `+`, at most `u16::MAX`. -/
def parseU16 (text : Text) : Option UInt16 :=
  let digits := (Text.stripFront ['+'] text).getD text
  let value := digits.foldl (fun n c => 10 * n + (c.toNat - '0'.toNat)) 0
  if digits.isEmpty || !digits.all Char.isDigit || 0xFFFF < value then none
  else some (UInt16.ofNat value)

def decimal (n : Nat) : Text := (Nat.repr n).toList

theorem toNat_of_isAlphanum {c : Char} (h : c.isAlphanum = true) :
    0x30 ≤ c.toNat ∧ c.toNat ≤ 0x39 ∨ 0x41 ≤ c.toNat ∧ c.toNat ≤ 0x5A ∨
      0x61 ≤ c.toNat ∧ c.toNat ≤ 0x7A := by
  change (decide (c.val ≥ 'A'.val ∧ c.val ≤ 'Z'.val) || (c.val ≥ 'a'.val && c.val ≤ 'z'.val) ||
    (c.val ≥ '0'.val && c.val ≤ '9'.val)) = true at h
  have hval : c.val.toNat = c.toNat := rfl
  have hA : 'A'.val.toNat = 0x41 ∧ 'Z'.val.toNat = 0x5A := by decide
  have ha : 'a'.val.toNat = 0x61 ∧ 'z'.val.toNat = 0x7A := by decide
  have h0 : '0'.val.toNat = 0x30 ∧ '9'.val.toNat = 0x39 := by decide
  simp only [Bool.or_eq_true, Bool.and_eq_true, decide_eq_true_eq, ge_iff_le,
    UInt32.le_iff_toNat_le, hval] at h
  omega

example : Text.lines "a\r\n\nb\r".toList = ["a".toList, [], "b\r".toList] := by decide

example : parseU16 "+0022".toList = some 22 := by decide

end RemoteDesktopTool
