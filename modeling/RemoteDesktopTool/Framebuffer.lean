import RemoteDesktopTool.Slices

namespace RemoteDesktopTool

open Checked

/-- A rectangle of the framebuffer that changed since the last frame. -/
structure DamageRect where
  left : Nat
  top : Nat
  width : Nat
  height : Nat
deriving DecidableEq, Repr

/-- A value of type `u32`: none is an arithmetic overflow. -/
def u32 (n : Nat) : Option Nat := if n < UInt32.size then some n else none

namespace DamageRect

def isEmpty (rect : DamageRect) : Bool := rect.width == 0 || rect.height == 0

def clamped (rect : DamageRect) (width height : Nat) : Option DamageRect :=
  let left := min rect.left (width - 1)
  let top := min rect.top (height - 1)
  -- the subtractions of the source are checked, unlike those of Nat
  if left ≤ width ∧ top ≤ height then
    some ⟨left, top, min rect.width (width - left), min rect.height (height - top)⟩
  else none

/-- The bounding box of two rectangles. -/
def union (rect other : DamageRect) : Option DamageRect :=
  if rect.isEmpty then some other
  else if other.isEmpty then some rect
  else do
    let left := min rect.left other.left
    let top := min rect.top other.top
    let right := max (← u32 (rect.left + rect.width)) (← u32 (other.left + other.width))
    let bottom := max (← u32 (rect.top + rect.height)) (← u32 (other.top + other.height))
    if left ≤ right ∧ top ≤ bottom then some ⟨left, top, right - left, bottom - top⟩ else none

end DamageRect

structure Bgra where
  blue : UInt8
  green : UInt8
  red : UInt8
  alpha : UInt8
deriving DecidableEq, Repr

def Bgra.bytes (bgra : Bgra) : List UInt8 := [bgra.blue, bgra.green, bgra.red, bgra.alpha]

/-- The BGRA framebuffer that holds the decoded remote desktop. -/
structure Framebuffer where
  width : Nat
  height : Nat
  pixels : List UInt8
  damage : List DamageRect
deriving DecidableEq, Repr

namespace Framebuffer

/-- `width * height * 4`, in `u32`. -/
def bufferSize (width height : Nat) : Option Nat := do
  let area ← u32 (width * height)
  u32 (area * 4)

def new (width height : Nat) : Option Framebuffer := do
  let width := max width 1
  let height := max height 1
  let size ← bufferSize width height
  some ⟨width, height, List.replicate size 0, []⟩

def stride (fb : Framebuffer) : Nat := fb.width * 4

def markDirty (fb : Framebuffer) (rect : DamageRect) : Option Framebuffer :=
  match fb.damage.getLast? with
  | some last => do
    let merged ← last.union rect
    some { fb with damage := fb.damage.dropLast ++ [merged] }
  | none => some { fb with damage := fb.damage ++ [rect] }

def resize (fb : Framebuffer) (width height : Nat) : Option Framebuffer := do
  let width := max width 1
  let height := max height 1
  if width = fb.width ∧ height = fb.height then
    return fb
  let size ← bufferSize width height
  let rows := min height fb.height
  let rowBytes ← u32 (min width fb.width * 4)
  let next ← run (fun row next => do
      let line ← slice fb.pixels (row * fb.stride) rowBytes
      copyInto next (row * (width * 4)) line)
    (List.range rows) (List.replicate size 0)
  markDirty { width, height, pixels := next, damage := [] } ⟨0, 0, width, height⟩

/-- The pixel at which a row of a rectangle starts. -/
def rowStart (fb : Framebuffer) (rect : DamageRect) (row : Nat) : Option Nat := do
  let line ← u32 (rect.top + row)
  let before ← u32 (line * fb.width)
  u32 (before + rect.left)

def blit (fb : Framebuffer) (rect : DamageRect) (data : List UInt8) : Option Framebuffer := do
  let rect ← rect.clamped fb.width fb.height
  if rect.isEmpty then
    return fb
  let expected ← bufferSize rect.width rect.height
  -- a truncated update is dropped
  if data.length < expected then
    return fb
  let pixels ← run (fun row pixels => do
      let target ← fb.rowStart rect row
      let source ← u32 (row * rect.width)
      let line ← slice data (source * 4) (rect.width * 4)
      copyInto pixels (target * 4) line)
    (List.range rect.height) fb.pixels
  markDirty { fb with pixels } rect

def fill (fb : Framebuffer) (rect : DamageRect) (bgra : Bgra) : Option Framebuffer := do
  let rect ← rect.clamped fb.width fb.height
  let pixels ← run (fun row pixels => do
      let start ← fb.rowStart rect row
      run (fun column pixels => copyInto pixels (start * 4 + column * 4) bgra.bytes)
        (List.range rect.width) pixels)
    (List.range rect.height) fb.pixels
  markDirty { fb with pixels } rect

/-- Takes the accumulated damage, clearing it. -/
def takeDamage (fb : Framebuffer) : List DamageRect × Framebuffer :=
  (fb.damage, { fb with damage := [] })

end Framebuffer

end RemoteDesktopTool
