import RemoteDesktopTool.FrontReading
import RemoteDesktopTool.LossyUtf8
import RemoteDesktopTool.Paste

namespace RemoteDesktopTool

inductive Key
  | char (ch : Char)
  | enter
  | backspace
  | tab
  | escape
  | up
  | down
  | right
  | left
  | home
  | «end»
  | pageUp
  | pageDown
  | insert
  | delete
  | f (n : UInt8)
deriving DecidableEq, Repr

/-- The source has a byte, of which only these bits can be set. -/
structure KeyModifier where
  bits : BitVec 3
deriving DecidableEq, Repr

namespace KeyModifier

def none : KeyModifier := ⟨0⟩

def shift : KeyModifier := ⟨1⟩

def alt : KeyModifier := ⟨2⟩

def control : KeyModifier := ⟨4⟩

def contains (m other : KeyModifier) : Bool := m.bits &&& other.bits != 0

def xtermParameter (m : KeyModifier) : UInt8 := UInt8.ofNat m.bits.toNat + 1

/-- `b'0' + modifier + 1` -/
def digit (m : KeyModifier) : UInt8 := 0x30 + m.xtermParameter

end KeyModifier

def functionLetter : UInt8 → UInt8
  | 1 => 0x50
  | 2 => 0x51
  | 3 => 0x52
  | _ => 0x53

def functionNumber : UInt8 → List UInt8
  | 5 => [0x31, 0x35]
  | 6 => [0x31, 0x37]
  | 7 => [0x31, 0x38]
  | 8 => [0x31, 0x39]
  | 9 => [0x32, 0x30]
  | 10 => [0x32, 0x31]
  | 11 => [0x32, 0x33]
  | _ => [0x32, 0x34]

def encodeFunctionKey (number : UInt8) (modifiers : KeyModifier) : List UInt8 :=
  if 1 ≤ number ∧ number ≤ 4 then
    if modifiers.bits = 0 then [0x1B, 0x4F, functionLetter number]
    else [0x1B, 0x5B, 0x31, 0x3B, modifiers.digit, functionLetter number]
  else if 5 ≤ number ∧ number ≤ 12 then
    [0x1B, 0x5B] ++ (if modifiers.bits ≠ 0 then [0x31, 0x3B, modifiers.digit, 0x3B] else []) ++
      functionNumber number ++ [0x7E]
  else []

def encodeKey (key : Key) (modifiers : KeyModifier) (modes : Modes) : List UInt8 :=
  match key with
  | .char ch =>
    if modifiers.contains .control && ch.isLower then [UInt8.ofNat (ch.toNat - 0x61 + 1)]
    else if modifiers.contains .control && ch.isUpper then [UInt8.ofNat (ch.toNat - 0x41 + 1)]
    else if modifiers.contains .control && ch == ' ' then [0]
    else String.utf8EncodeChar ch
  | .enter => [0x0D]
  | .backspace => if modifiers.contains .alt then [0x1B, 0x7F] else [0x7F]
  | .tab => if modifiers.contains .shift then [0x1B, 0x5B, 0x5A] else [0x09]
  | .escape => [0x1B]
  | .up | .down | .right | .left =>
    let letter := match key with
      | .up => 0x41
      | .down => 0x42
      | .right => 0x43
      | _ => 0x44
    if modifiers.bits = 0 then
      if modes.applicationCursorKeys then [0x1B, 0x4F, letter] else [0x1B, 0x5B, letter]
    else [0x1B, 0x5B, 0x31, 0x3B, modifiers.digit, letter]
  | .home | .end =>
    let letter := if key = .home then 0x48 else 0x46
    if modifiers.bits = 0 then [0x1B, 0x5B, letter]
    else [0x1B, 0x5B, 0x31, 0x3B, modifiers.digit, letter]
  | .pageUp | .pageDown | .insert | .delete =>
    let number := match key with
      | .pageUp => 0x35
      | .pageDown => 0x36
      | .insert => 0x32
      | _ => 0x33
    if modifiers.bits = 0 then [0x1B, 0x5B] ++ [number] ++ [0x7E]
    else [0x1B, 0x5B] ++ [number] ++ [0x3B] ++ [modifiers.digit] ++ [0x7E]
  | .f n => encodeFunctionKey n modifiers

/-- What a user enters into a terminal. -/
inductive UserInput
  | key (key : Key) (modifiers : KeyModifier)
  | paste (text : Text)
  | line (command : Text)
deriving DecidableEq, Repr

def UserInput.bytes (modes : Modes) : UserInput → List UInt8
  | .key k modifiers => encodeKey k modifiers modes
  | .paste text => encodePaste text modes
  | .line command => encodeLine command modes

/-- What the other side can tell of it. -/
inductive Stroke
  | press (key : Key) (modifiers : KeyModifier)
  | paste (text : Text)
deriving DecidableEq, Repr

namespace Stroke

def char (c : Char) : Stroke := .press (.char c) .none

def text (modes : Modes) : Stroke → Text
  | .press (.char c) _ => [c]
  | .press key modifiers => (encodeKey key modifiers modes).map Parser.byteChar
  | .paste text => pasteStart.map Parser.byteChar ++ text ++ pasteEnd

end Stroke

def controlled (c : Char) : Char :=
  if c.isLower || c.isUpper then Char.ofNat (c.toNat % 0x20) else if c = ' ' then '\x00' else c

def Key.strokes (modifiers : KeyModifier) : Key → List Stroke
  | .char ch => [.char (if modifiers.contains .control then controlled ch else ch)]
  | .enter => [.char '\r']
  | .backspace =>
    [if modifiers.contains .alt then .press .backspace .alt else .char '\x7F']
  | .tab => [if modifiers.contains .shift then .press .tab .shift else .char '\t']
  | .escape => [.char '\x1B']
  | .f n => if 1 ≤ n ∧ n ≤ 12 then [.press (.f n) modifiers] else []
  | key => [.press key modifiers]

def UserInput.strokes (modes : Modes) : UserInput → List Stroke
  | .key k modifiers => k.strokes modifiers
  | .paste text => if modes.bracketedPaste then [.paste text] else text.map .char
  | .line command =>
    (if modes.bracketedPaste then [.paste command] else command.map .char) ++ [.char '\r']

section Reading

def isParameter (c : Char) : Bool := c.isDigit || c == ';'

def letterKey : Char → Option Key
  | 'A' => some .up
  | 'B' => some .down
  | 'C' => some .right
  | 'D' => some .left
  | 'H' => some .home
  | 'F' => some .end
  | 'P' => some (.f 1)
  | 'Q' => some (.f 2)
  | 'R' => some (.f 3)
  | 'S' => some (.f 4)
  | _ => none

def numberKey : Text → Option Key
  | ['2'] => some .insert
  | ['3'] => some .delete
  | ['5'] => some .pageUp
  | ['6'] => some .pageDown
  | ['1', '5'] => some (.f 5)
  | ['1', '7'] => some (.f 6)
  | ['1', '8'] => some (.f 7)
  | ['1', '9'] => some (.f 8)
  | ['2', '0'] => some (.f 9)
  | ['2', '1'] => some (.f 10)
  | ['2', '3'] => some (.f 11)
  | ['2', '4'] => some (.f 12)
  | _ => none

def modifierOf (digit : Char) : KeyModifier := ⟨BitVec.ofNat 3 (digit.toNat - 0x31)⟩

/-- The key of a control sequence, from its parameters and its last character. -/
def controlKey (params : Text) (final : Char) : Option Stroke :=
  if final = '~' then
    match params with
    | [_, _, m, _, a, b] => (numberKey [a, b]).map (.press · (modifierOf m))
    | [a, _, m] => (numberKey [a]).map (.press · (modifierOf m))
    | number => (numberKey number).map (.press · .none)
  else
    match params with
    | [_, _, m] => (letterKey final).map (.press · (modifierOf m))
    | [] =>
      if final = 'Z' then some (.press .tab .shift) else (letterKey final).map (.press · .none)
    | _ => none

def readControl (params : Text) : Text → Option (Stroke × Text)
  | [] => none
  | final :: text =>
    if params = ['2', '0', '0'] ∧ final = '~' then
      (cutAt pasteEnd text).map fun cut => (.paste cut.1, cut.2)
    else (controlKey params final).map fun stroke => (stroke, text)

/-- One stroke off the front of what is sent. -/
def readStroke : Text → Option (Stroke × Text)
  | [] => none
  | '\x1B' :: '[' :: text => readControl (text.takeWhile isParameter) (text.dropWhile isParameter)
  | '\x1B' :: 'O' :: text =>
    match text with
    | [] => none
    | final :: text => (letterKey final).map fun key => (.press key .none, text)
  | '\x1B' :: '\x7F' :: text => some (.press .backspace .alt, text)
  | c :: text => some (.char c, text)

end Reading

end RemoteDesktopTool
