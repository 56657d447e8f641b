import RemoteDesktopTool.Checked
import RemoteDesktopTool.Strings

namespace RemoteDesktopTool

/-- One parsed event from the input stream; parameters are `u16` values. -/
inductive Action
  | print (ch : Char)
  | execute (code : UInt8)
  | csi (params : List Nat) (intermediates : List UInt8) (ignore : Bool) (action : UInt8)
  | esc (intermediates : List UInt8) (ignore : Bool) (action : UInt8)
  | osc (params : List Text) (bellTerminated : Bool)
  | dcsStart (params : List Nat) (intermediates : List UInt8) (action : UInt8)
  | dcsData (data : List UInt8)
  | dcsEnd
deriving DecidableEq, Repr

inductive ParserState
  | ground
  | escape
  | escapeIntermediate
  | csiEntry
  | csiParam
  | csiIntermediate
  | csiIgnore
  | dcsEntry
  | dcsParam
  | dcsIntermediate
  | dcsPassthrough
  | dcsIgnore
  | oscString
  | sosPmApcString
deriving DecidableEq, Repr

structure Parser where
  state : ParserState
  params : List Nat
  currentParam : Option Nat
  intermediates : List UInt8
  ignore : Bool
  oscBuffer : Text
  dcsBuffer : List UInt8
  utf8Buffer : List UInt8
  utf8Len : Nat
  utf8Expected : Nat
  pendingDcsStart : Option (List Nat × List UInt8 × UInt8)
deriving DecidableEq, Repr

namespace Parser

def new : Parser where
  state := .ground
  params := []
  currentParam := none
  intermediates := []
  ignore := false
  oscBuffer := []
  dcsBuffer := []
  utf8Buffer := [0, 0, 0, 0]
  utf8Len := 0
  utf8Expected := 0
  pendingDcsStart := none

def replacementCharacter : Char := Char.ofNat 0xFFFD

/-- `byte as char`. -/
def byteChar (byte : UInt8) : Char := Char.ofNat byte.toNat

def u16Max : Nat := 0xFFFF

def within (lo hi byte : UInt8) : Bool := lo ≤ byte && byte ≤ hi

def isDigit (byte : UInt8) : Bool := within 0x30 0x39 byte

def digit (byte : UInt8) : Nat := byte.toNat - 0x30

def clear (p : Parser) : Parser :=
  { p with
    params := []
    currentParam := none
    intermediates := []
    ignore := false
    oscBuffer := []
    dcsBuffer := []
    utf8Len := 0
    utf8Expected := 0 }

def pushParam (p : Parser) : Parser :=
  { p with params := p.params ++ [p.currentParam.getD 0], currentParam := none }

def pushIntermediate (p : Parser) (byte : UInt8) : Parser :=
  { p with intermediates := p.intermediates ++ [byte] }

def pushDigit (p : Parser) (byte : UInt8) : Parser :=
  let next := min (min (p.currentParam.getD 0 * 10) u16Max + digit byte) u16Max
  { p with currentParam := some (min next u16Max) }

def strFromUtf8 (bytes : List UInt8) : Option Text :=
  (ByteArray.mk bytes.toArray).utf8Decode?.map Array.toList

def utf8LeadLength (byte : UInt8) : Option Nat :=
  if within 0xC0 0xDF byte then some 2
  else if within 0xE0 0xEF byte then some 3
  else if within 0xF0 0xF7 byte then some 4
  else none

/-- `utf8` when no sequence is pending (`utf8_len == 0`). -/
def utf8Lead (p : Parser) (byte : UInt8) : Option (Parser × List Action) :=
  match utf8LeadLength byte with
  | none => some (p, [.print replacementCharacter])
  | some expected => do
    let buffer ← Checked.setAt p.utf8Buffer 0 byte
    some ({ p with utf8Expected := expected, utf8Buffer := buffer, utf8Len := 1 }, [])

/-- `ground` when no sequence is pending. -/
def groundChar (p : Parser) (byte : UInt8) : Option (Parser × List Action) :=
  if within 0x00 0x17 byte || byte = 0x19 || within 0x1C 0x1F byte then
    some (p, [.execute byte])
  else if within 0x20 0x7F byte then some (p, [.print (byteChar byte)])
  else p.utf8Lead byte

/-- Minimal UTF-8 decoder for the ground state. -/
def utf8 (p : Parser) (byte : UInt8) : Option (Parser × List Action) :=
  if p.utf8Len = 0 then p.utf8Lead byte
  else if byte &&& 0xC0 ≠ 0x80 then do
    -- The source calls `ground` again here, with the sequence dropped.
    let (p, out) ← groundChar { p with utf8Len := 0, utf8Expected := 0 } byte
    some (p, .print replacementCharacter :: out)
  else do
    let buffer ← Checked.setAt p.utf8Buffer p.utf8Len byte
    let p := { p with utf8Buffer := buffer, utf8Len := p.utf8Len + 1 }
    if p.utf8Len = p.utf8Expected then
      let decoded := (strFromUtf8 (p.utf8Buffer.take p.utf8Len)).bind List.head?
      some ({ p with utf8Len := 0, utf8Expected := 0 },
        [.print (decoded.getD replacementCharacter)])
    else some (p, [])

def ground (p : Parser) (byte : UInt8) : Option (Parser × List Action) :=
  if 0 < p.utf8Len && byte < 0x80 then p.utf8 byte
  else if within 0x00 0x17 byte || byte = 0x19 || within 0x1C 0x1F byte then
    some (p, [.execute byte])
  else if within 0x20 0x7F byte then some (p, [.print (byteChar byte)])
  else p.utf8 byte

def escDispatch (p : Parser) (byte : UInt8) : Parser × List Action :=
  ({ p with intermediates := [], state := .ground }, [.esc p.intermediates false byte])

def escape (p : Parser) (byte : UInt8) : Parser × List Action :=
  match byteChar byte with
  | '[' => ({ p with state := .csiEntry }, [])
  | ']' => ({ p with oscBuffer := [], state := .oscString }, [])
  | 'P' => ({ p with state := .dcsEntry }, [])
  | 'X' | '^' | '_' => ({ p with state := .sosPmApcString }, [])
  | '\\' => ({ p with state := .ground }, [])
  | _ =>
    if within 0x20 0x2F byte then
      ({ p.pushIntermediate byte with state := .escapeIntermediate }, [])
    else if within 0x30 0x7E byte then p.escDispatch byte
    else ({ p with state := .ground }, [])

def escapeIntermediate (p : Parser) (byte : UInt8) : Parser × List Action :=
  if within 0x20 0x2F byte then (p.pushIntermediate byte, [])
  else if within 0x30 0x7E byte then p.escDispatch byte
  else ({ p with state := .ground }, [])

def csiDispatch (p : Parser) (byte : UInt8) : Parser × List Action :=
  let p := p.pushParam
  ({ p with
      params := []
      intermediates := []
      ignore := false
      currentParam := none
      state := .ground },
    [.csi p.params p.intermediates p.ignore byte])

def csiEntry (p : Parser) (byte : UInt8) : Parser × List Action :=
  if isDigit byte then ({ p with currentParam := some (digit byte), state := .csiParam }, [])
  else if byte = 0x3B then ({ p.pushParam with state := .csiParam }, [])
  else if byte = 0x3A then ({ p.pushParam with state := .csiIgnore }, [])
  else if within 0x3C 0x3F byte then ({ p.pushIntermediate byte with state := .csiParam }, [])
  else if within 0x20 0x2F byte then
    ({ p.pushIntermediate byte with state := .csiIntermediate }, [])
  else if within 0x40 0x7E byte then p.csiDispatch byte
  else (p, [])

def csiParam (p : Parser) (byte : UInt8) : Parser × List Action :=
  if isDigit byte then (p.pushDigit byte, [])
  else if byte = 0x3B then (p.pushParam, [])
  else if byte = 0x3A then ({ p.pushParam with state := .csiIgnore }, [])
  else if within 0x20 0x2F byte then
    ({ p.pushIntermediate byte with state := .csiIntermediate }, [])
  else if within 0x40 0x7E byte then p.csiDispatch byte
  else if within 0x3C 0x3F byte then ({ p with ignore := true, state := .csiIgnore }, [])
  else (p, [])

def csiIntermediate (p : Parser) (byte : UInt8) : Parser × List Action :=
  if within 0x20 0x2F byte then (p.pushIntermediate byte, [])
  else if within 0x30 0x3F byte then ({ p with ignore := true, state := .csiIgnore }, [])
  else if within 0x40 0x7E byte then p.csiDispatch byte
  else (p, [])

def csiIgnore (p : Parser) (byte : UInt8) : Parser × List Action :=
  if within 0x40 0x7E byte then
    ({ p with
        params := []
        intermediates := []
        ignore := false
        currentParam := none
        state := .ground },
      [.csi p.params p.intermediates true byte])
  else (p, [])

def dcsDispatchStart (p : Parser) (byte : UInt8) : Parser :=
  let p := p.pushParam
  { p with
    params := []
    intermediates := []
    currentParam := none
    dcsBuffer := []
    state := .dcsPassthrough
    pendingDcsStart := some (p.params, p.intermediates, byte) }

def dcsEntry (p : Parser) (byte : UInt8) : Parser :=
  if isDigit byte then { p with currentParam := some (digit byte), state := .dcsParam }
  else if byte = 0x3B then { p.pushParam with state := .dcsParam }
  else if within 0x3C 0x3F byte then { p.pushIntermediate byte with state := .dcsParam }
  else if within 0x20 0x2F byte then { p.pushIntermediate byte with state := .dcsIntermediate }
  else if within 0x40 0x7E byte then p.dcsDispatchStart byte
  else p

def dcsParam (p : Parser) (byte : UInt8) : Parser :=
  if isDigit byte then p.pushDigit byte
  else if byte = 0x3B then p.pushParam
  else if within 0x3C 0x3F byte then { p with state := .dcsIgnore }
  else if within 0x20 0x2F byte then { p.pushIntermediate byte with state := .dcsIntermediate }
  else if within 0x40 0x7E byte then p.dcsDispatchStart byte
  else p

def dcsIntermediate (p : Parser) (byte : UInt8) : Parser :=
  if within 0x20 0x2F byte then p.pushIntermediate byte
  else if within 0x30 0x3F byte then { p with state := .dcsIgnore }
  else if within 0x40 0x7E byte then p.dcsDispatchStart byte
  else p

def dcsFinish (p : Parser) : Parser × List Action :=
  if p.dcsBuffer = [] then (p, [.dcsEnd])
  else ({ p with dcsBuffer := [] }, [.dcsData p.dcsBuffer, .dcsEnd])

def dcsPassthrough (p : Parser) (byte : UInt8) : Parser × List Action :=
  let started : List Action :=
    match p.pendingDcsStart with
    | some (params, intermediates, action) => [.dcsStart params intermediates action]
    | none => []
  let p := { p with pendingDcsStart := none }
  if within 0x00 0x17 byte || byte = 0x19 || within 0x1C 0x7E byte then
    ({ p with dcsBuffer := p.dcsBuffer ++ [byte] }, started)
  else if byte = 0x7F then (p, started)
  else
    let (p, finished) := p.dcsFinish
    if byte = 0x1B then ({ p.clear with state := .escape }, started ++ finished)
    else ({ p with state := .ground }, started ++ finished)

def dcsIgnore (p : Parser) (_byte : UInt8) : Parser := p

def splitOsc (buffer : Text) : List Text := buffer.splitOn ';'

def oscString (p : Parser) (byte : UInt8) : Parser × List Action :=
  if byte = 0x07 then
    ({ p with oscBuffer := [], state := .ground }, [.osc (splitOsc p.oscBuffer) true])
  else if byte = 0x1B then
    ({ p with oscBuffer := [], state := .escape }, [.osc (splitOsc p.oscBuffer) false])
  else if within 0x20 0x7F byte then ({ p with oscBuffer := p.oscBuffer ++ [byteChar byte] }, [])
  else (p, [])

def sosPmApc (p : Parser) (byte : UInt8) : Parser :=
  if byte = 0x07 then { p with state := .ground } else p

/-- The table of the current state, reached after the anywhere transitions. -/
def dispatch (p : Parser) (byte : UInt8) : Option (Parser × List Action) :=
  match p.state with
  | .ground => p.ground byte
  | .escape => some (p.escape byte)
  | .escapeIntermediate => some (p.escapeIntermediate byte)
  | .csiEntry => some (p.csiEntry byte)
  | .csiParam => some (p.csiParam byte)
  | .csiIntermediate => some (p.csiIntermediate byte)
  | .csiIgnore => some (p.csiIgnore byte)
  | .dcsEntry => some (p.dcsEntry byte, [])
  | .dcsParam => some (p.dcsParam byte, [])
  | .dcsIntermediate => some (p.dcsIntermediate byte, [])
  | .dcsPassthrough => some (p.dcsPassthrough byte)
  | .dcsIgnore => some (p.dcsIgnore byte, [])
  | .oscString => some (p.oscString byte)
  | .sosPmApcString => some (p.sosPmApc byte, [])

def readsEscape (p : Parser) : Bool :=
  p.state = .oscString || p.state = .dcsPassthrough || p.state = .sosPmApcString

def step (p : Parser) (byte : UInt8) : Option (Parser × List Action) :=
  if byte = 0x18 || byte = 0x1A then some ({ p.clear with state := .ground }, [.execute byte])
  else if byte = 0x1B && !p.readsEscape then some ({ p.clear with state := .escape }, [])
  else p.dispatch byte

def advance (p : Parser) : List UInt8 → Option (Parser × List Action)
  | [] => some (p, [])
  | byte :: bytes => do
    let (p, out) ← p.step byte
    let (p, rest) ← p.advance bytes
    some (p, out ++ rest)

def reset (_p : Parser) : Parser := new

end Parser

end RemoteDesktopTool
