import Mathlib.Data.Set.Function
import RemoteDesktopTool.Strings
import RemoteDesktopTool.Utf16

namespace RemoteDesktopTool

/-- Input injected into the remote session. -/
inductive RdpInput
  | key (scancode : UInt16) (pressed extended : Bool)
  | unicode (ch : Char)
  | mouseButton (flags x y : UInt16)
  | mouseMove (x y : UInt16)
  | mouseWheel (delta : Int16) (x y : UInt16)
deriving DecidableEq

/-- An event on the wire; the flags are the bits of `KeyboardFlags` and `PointerFlags`. -/
inductive FastPathInputEvent
  | keyboard (flags : UInt8) (keyCode : UInt16)
  | unicodeKeyboard (flags : UInt8) (keyCode : UInt16)
  | pointer (flags xPosition yPosition : UInt16)
deriving DecidableEq

/-- The bits of the protocol crate's flags: `pointerBits` are those that `from_bits_truncate` of
`PointerFlags` keeps, `rotation` those of the wheel field of a pointer event. -/
structure InputFlags where
  release : UInt8
  extended : UInt8
  move : UInt16
  wheel : UInt16
  wheelNegative : UInt16
  rotation : UInt16
  pointerBits : UInt16

/-- The bits of the protocol. -/
def InputFlags.fastPath : InputFlags := ⟨0x01, 0x02, 0x0800, 0x0200, 0x0100, 0x00FF, 0xFFFF⟩

/-- Converts an input event into the wire representation. -/
def encodeInput (bits : InputFlags) : RdpInput → Option FastPathInputEvent
  | .key scancode pressed extended =>
    let flags := if pressed then 0 else bits.release
    let flags := if extended then flags ||| bits.extended else flags
    some (.keyboard flags scancode)
  | .unicode ch => some (.unicodeKeyboard 0 (Utf16.truncate ch))
  | .mouseButton flags x y => some (.pointer (flags &&& bits.pointerBits) x y)
  | .mouseMove x y => some (.pointer bits.move x y)
  | .mouseWheel delta x y =>
    let flags := if delta < 0 then bits.wheel ||| bits.wheelNegative else bits.wheel
    some (.pointer flags x y)

/-- The events of a text that is sent character by character. -/
def sentText (bits : InputFlags) (text : Text) : List FastPathInputEvent :=
  text.filterMap fun ch => encodeInput bits (.unicode ch)

def keyCodes (events : List FastPathInputEvent) : List UInt16 :=
  events.filterMap fun event =>
    match event with
    | .unicodeKeyboard _ keyCode => some keyCode
    | _ => none

/-- A wheel delta as far as eight bits and a sign hold it. -/
def heldDelta (delta : Int16) : Int := max (-255) (min delta.toInt 255)

/-- How far an event turns the wheel: the wheel field, downwards with the flag for negative
rotation. -/
def rotationOf (bits : InputFlags) : FastPathInputEvent → Int
  | .pointer flags _ _ =>
    let units : Int := (flags &&& bits.rotation).toNat
    if flags &&& bits.wheelNegative = 0 then units else -units
  | _ => 0

example : rotationOf .fastPath (.pointer 0x0378 10 20) = -120 := by decide

/-- Input of these texts and wheel deltas reaches the server without loss. -/
structure InputLossless (bits : InputFlags) (texts : Set Text) (deltas : Set Int16) : Prop where
  distinct : Set.InjOn (sentText bits) texts
  utf16 : ∀ text ∈ texts, keyCodes (sentText bits text) = Utf16.encode text
  wheel : ∀ delta ∈ deltas, ∀ x y,
    (encodeInput bits (.mouseWheel delta x y)).map (rotationOf bits) = some (heldDelta delta)

variable {bits : InputFlags} {text : Text} {texts : Set Text} {deltas : Set Int16} {delta : Int16}

theorem sentText_eq (bits : InputFlags) (text : Text) :
    sentText bits text = text.map fun ch => .unicodeKeyboard 0 (Utf16.truncate ch) := by
  rw [sentText, ← List.filterMap_eq_map]
  rfl

theorem keyCodes_sentText (bits : InputFlags) (text : Text) :
    keyCodes (sentText bits text) = text.map Utf16.truncate := by
  rw [sentText_eq, keyCodes, List.filterMap_map, ← List.filterMap_eq_map]
  rfl

/-- In the basic plane the events give the text back. -/
theorem sentText_injOn (h : ∀ text ∈ texts, ∀ c ∈ text, c.toNat < 0x10000) :
    Set.InjOn (sentText bits) texts := by
  intro text htext other hother hsame
  refine Utf16.map_truncate_injective (h text htext) (h other hother) ?_
  rw [← keyCodes_sentText bits, ← keyCodes_sentText bits, hsame]

/-- The wheel field of an event is never filled. -/
theorem rotationOf_wheel (hup : bits.wheel &&& bits.rotation = 0)
    (hdown : (bits.wheel ||| bits.wheelNegative) &&& bits.rotation = 0) (delta : Int16)
    (x y : UInt16) :
    (encodeInput bits (.mouseWheel delta x y)).map (rotationOf bits) = some 0 := by
  have hfield : (if delta < 0 then bits.wheel ||| bits.wheelNegative else bits.wheel) &&&
      bits.rotation = 0 := by
    split
    next => exact hdown
    next => exact hup
  have hevent : ∀ flags : UInt16, flags &&& bits.rotation = 0 →
      rotationOf bits (.pointer flags x y) = 0 := by
    intro flags hzero
    simp only [rotationOf, hzero]
    split <;> rfl
  exact congrArg some (hevent _ hfield)

theorem heldDelta_eq_zero_iff : heldDelta delta = 0 ↔ delta = 0 := by
  have hzero : delta.toInt = 0 ↔ delta = 0 := Int16.toInt_inj (y := 0)
  rw [← hzero, heldDelta]
  omega

/-- Nothing is lost exactly when the texts stay in the basic plane and the wheel stands still. -/
theorem inputLossless_iff (hup : bits.wheel &&& bits.rotation = 0)
    (hdown : (bits.wheel ||| bits.wheelNegative) &&& bits.rotation = 0) (texts : Set Text)
    (deltas : Set Int16) :
    InputLossless bits texts deltas ↔
      (∀ text ∈ texts, ∀ c ∈ text, c.toNat < 0x10000) ∧ ∀ delta ∈ deltas, delta = 0 := by
  have hutf16 : (∀ text ∈ texts, keyCodes (sentText bits text) = Utf16.encode text) ↔
      ∀ text ∈ texts, ∀ c ∈ text, c.toNat < 0x10000 := by
    refine forall₂_congr fun text _ => ?_
    rw [keyCodes_sentText]
    exact Utf16.map_truncate_eq_encode_iff
  have hwheel : (∀ delta ∈ deltas, ∀ x y,
      (encodeInput bits (.mouseWheel delta x y)).map (rotationOf bits) = some (heldDelta delta)) ↔
      ∀ delta ∈ deltas, delta = 0 := by
    refine forall₂_congr fun delta _ => ?_
    simp only [rotationOf_wheel hup hdown, Option.some.injEq, forall_const]
    rw [eq_comm, heldDelta_eq_zero_iff]
  constructor
  · rintro ⟨_, hcodes, hturns⟩
    exact ⟨hutf16.mp hcodes, hwheel.mp hturns⟩
  · rintro ⟨hbasic, hstill⟩
    exact ⟨sentText_injOn hbasic, hutf16.mpr hbasic, hwheel.mpr hstill⟩

theorem inputLossless_iff_sample :
    InputLossless .fastPath {"€".toList, "ab".toList} {0} ∧
      ¬InputLossless .fastPath {"€".toList} {-120, 120} := by
  constructor
  · exact (inputLossless_iff (by decide) (by decide) _ _).mpr ⟨by simp, by simp⟩
  · intro hlossless
    have hstill := ((inputLossless_iff (by decide) (by decide) _ _).mp hlossless).2
    exact absurd (hstill 120 (by simp)) (by decide)

/-- An emoji arrives as a character of private use, and no turn of the wheel arrives. -/
theorem input_lost :
    sentText .fastPath ['😀'] = sentText .fastPath [Char.ofNat 0xF600] ∧
    keyCodes (sentText .fastPath ['😀']) = [0xF600] ∧
    Utf16.encode ['😀'] = [0xD83D, 0xDE00] ∧
    (∀ x y, encodeInput .fastPath (.mouseWheel 120 x y) =
      encodeInput .fastPath (.mouseWheel 1 x y)) ∧
    heldDelta 120 ≠ heldDelta 1 ∧ ¬InputLossless .fastPath Set.univ Set.univ := by
  have hcodes : keyCodes (sentText .fastPath ['😀']) = [0xF600] := by decide
  have hutf16 : Utf16.encode ['😀'] = [0xD83D, 0xDE00] := by decide
  refine ⟨by decide, hcodes, hutf16, fun _ _ => rfl, by decide, fun hlossless => ?_⟩
  have hsame := hlossless.utf16 ['😀'] (Set.mem_univ _)
  rw [hcodes, hutf16] at hsame
  exact absurd hsame (by decide)

end RemoteDesktopTool
