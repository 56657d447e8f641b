import Mathlib.Data.Nat.Digits.Lemmas
import RemoteDesktopTool.EditedRows
import RemoteDesktopTool.ParserText
import RemoteDesktopTool.SgrTokens

namespace RemoteDesktopTool

open Checked

/-- The colours that a cell can have; their numbers are bytes. -/
def Color.IsBytes : Color → Prop
  | .default => True
  | .indexed index => index < 256
  | .rgb r g b => r < 256 ∧ g < 256 ∧ b < 256

/-- A character with its attributes, as it stands on a screen. -/
structure Glyph where
  ch : Char
  attrs : Attrs
  printable : 0x20 ≤ ch.toNat
  fg_bytes : attrs.fg.IsBytes
  bg_bytes : attrs.bg.IsBytes

def Glyph.cells (g : Glyph) : List Cell := Display.glyph g.ch g.attrs

/-- Characters that fill a line from margin to margin. -/
structure DrawnLine (cols : Nat) where
  glyphs : List Glyph
  width : (glyphs.flatMap Glyph.cells).length = cols

/-- What a screen is to show: whole characters in every line. -/
structure Drawing (cols rows : Nat) where
  lines : List (DrawnLine cols)
  height : lines.length = rows

def DrawnLine.row {cols : Nat} (line : DrawnLine cols) : Row :=
  ⟨line.glyphs.flatMap Glyph.cells, false⟩

def Drawing.screen {cols rows : Nat} (p : Drawing cols rows) : List Row :=
  p.lines.map DrawnLine.row

section Codes

def flagCode (flag : Bool) (code : Nat) : List Nat := if flag then [code] else []

def colorCodes (target : Nat) : Color → List Nat
  | .default => []
  | .indexed index => [target, 5, index]
  | .rgb r g b => [target, 2, r, g, b]

/-- The parameters that select these attributes, whatever was selected before. -/
def Attrs.codes (a : Attrs) : List Nat :=
  0 :: (flagCode a.bold 1 ++ flagCode a.dim 2 ++ flagCode a.italic 3 ++ flagCode a.underline 4 ++
    flagCode a.blink 5 ++ flagCode a.inverse 7 ++ flagCode a.hidden 8 ++
    flagCode a.strikethrough 9 ++ colorCodes 38 a.fg ++ colorCodes 48 a.bg)

theorem Attrs.codes_ne_nil (a : Attrs) : a.codes ≠ [] := List.cons_ne_nil _ _

theorem applySgr_flagCode (set : Bool → Attrs) {code : Nat} (flag : Bool) (rest : List Nat)
    (hfg : code ≠ 38) (hbg : code ≠ 48) (hset : sgrCode code (set false) = set true) :
    applySgr (flagCode flag code ++ rest) (set false) = applySgr rest (set flag) := by
  cases flag with
  | false => rfl
  | true =>
    have hcode := applySgr_code hfg hbg rest (set false)
    rw [hset] at hcode
    exact hcode

theorem applySgr_colorCodes {target : Nat} (h : target = 38 ∨ target = 48) {color : Color}
    (hbytes : color.IsBytes) (rest : List Nat) (attrs : Attrs) :
    applySgr (colorCodes target color ++ rest) attrs = applySgr rest (match color with
      | .default => attrs
      | color => setColor target (some color) attrs) := by
  cases color with
  | default => rfl
  | indexed index =>
    have htoken := (IsSgrToken.indexed h index).applySgr_append rest attrs
    have hcolor := applySgr_color h [5, index] attrs
    rw [takeExtendedColor, Nat.mod_eq_of_lt hbytes] at hcolor
    exact htoken.trans (congrArg (applySgr rest) hcolor)
  | rgb r g b =>
    obtain ⟨hr, hg, hb⟩ := hbytes
    have htoken := (IsSgrToken.rgb h r g b).applySgr_append rest attrs
    have hcolor := applySgr_color h [2, r, g, b] attrs
    rw [takeExtendedColor, Nat.mod_eq_of_lt hr, Nat.mod_eq_of_lt hg, Nat.mod_eq_of_lt hb] at hcolor
    exact htoken.trans (congrArg (applySgr rest) hcolor)

/-- The codes of attributes select them. -/
theorem applySgr_codes {a : Attrs} (hfg : a.fg.IsBytes) (hbg : a.bg.IsBytes) (before : Attrs) :
    applySgr a.codes before = a := by
  obtain ⟨fg, bg, bold, dim, italic, underline, blink, inverse, hidden, strikethrough⟩ := a
  have hreset (rest : List Nat) : applySgr (0 :: rest) before = applySgr rest .plain :=
    applySgr_code (by decide) (by decide) rest before
  have hcolors : applySgr (colorCodes 38 fg ++ colorCodes 48 bg)
      ⟨.default, .default, bold, dim, italic, underline, blink, inverse, hidden, strikethrough⟩ =
      ⟨fg, bg, bold, dim, italic, underline, blink, inverse, hidden, strikethrough⟩ := by
    have hback := applySgr_colorCodes (Or.inr rfl) hbg []
    simp only [List.append_nil] at hback
    rw [applySgr_colorCodes (Or.inl rfl) hfg, hback]
    cases fg <;> cases bg <;> rfl
  unfold Attrs.codes
  simp only [List.append_assoc]
  rw [hreset]
  refine (applySgr_flagCode (fun bold => { Attrs.plain with bold }) bold _ (by decide) (by decide)
    rfl).trans ?_
  refine (applySgr_flagCode (fun dim => { Attrs.plain with bold, dim }) dim _ (by decide)
    (by decide) rfl).trans ?_
  refine (applySgr_flagCode (fun italic => { Attrs.plain with bold, dim, italic }) italic _
    (by decide) (by decide) rfl).trans ?_
  refine (applySgr_flagCode (fun underline => { Attrs.plain with bold, dim, italic, underline })
    underline _ (by decide) (by decide) rfl).trans ?_
  refine (applySgr_flagCode
    (fun blink => { Attrs.plain with bold, dim, italic, underline, blink })
    blink _ (by decide) (by decide) rfl).trans ?_
  refine (applySgr_flagCode
    (fun inverse => { Attrs.plain with bold, dim, italic, underline, blink, inverse })
    inverse _ (by decide) (by decide) rfl).trans ?_
  refine (applySgr_flagCode
    (fun hidden => { Attrs.plain with bold, dim, italic, underline, blink, inverse, hidden })
    hidden _ (by decide) (by decide) rfl).trans ?_
  exact (applySgr_flagCode
    (fun strikethrough =>
      ⟨.default, .default, bold, dim, italic, underline, blink, inverse, hidden, strikethrough⟩)
    strikethrough _ (by decide) (by decide) rfl).trans hcolors

end Codes

section Numbers

theorem foldr_digits (digits : List Nat) (h : ∀ d ∈ digits, d < 10) :
    (digits.map fun d => UInt8.ofNat (0x30 + d)).foldr
      (fun byte n => 10 * n + Parser.digit byte) 0 = Nat.ofDigits 10 digits := by
  induction digits with
  | nil => rfl
  | cons d digits ih =>
    have hdigit : Parser.digit (UInt8.ofNat (0x30 + d)) = d := by
      have hlt := h d List.mem_cons_self
      have hsize : 0x30 + d < UInt8.size := (Nat.add_lt_add_left hlt _).trans (by decide)
      rw [Parser.digit, UInt8.toNat_ofNat_of_lt' hsize]
      omega
    rw [List.map_cons, List.foldr_cons, ih fun d hd => h d (List.mem_cons_of_mem _ hd), hdigit,
      Nat.ofDigits_cons]
    exact Nat.add_comm _ _

/-- The decimal digits of a number; of 0 there are none. -/
def Digits.ofNat (n : Nat) : Digits where
  run := ((Nat.digits 10 n).map fun d => UInt8.ofNat (0x30 + d)).reverse
  isDigit := by
    have hall : ∀ d < 10, Parser.isDigit (UInt8.ofNat (0x30 + d)) = true := by decide
    intro byte hbyte
    obtain ⟨d, hd, rfl⟩ := List.mem_map.mp (List.mem_reverse.mp hbyte)
    exact hall d (Nat.digits_lt_base (by decide) hd)

theorem Digits.param_ofNat {n : Nat} (h : n ≤ Parser.u16Max) : (Digits.ofNat n).param = n := by
  have hvalue : CsiSequence.value (Digits.ofNat n).run = n := by
    have hdigits := foldr_digits (Nat.digits 10 n) fun d hd =>
      Nat.digits_lt_base (by decide) hd
    rw [CsiSequence.value, Digits.ofNat, List.foldl_reverse, hdigits, Nat.ofDigits_digits]
  rw [Digits.param, CsiSequence.param, hvalue]
  exact Nat.min_eq_right h

end Numbers

/-- Selects the attributes, and then the character. -/
def Glyph.sequence (g : Glyph) : CsiSequence :=
  .selectGraphics (g.attrs.codes.map Digits.ofNat) fun h =>
    g.attrs.codes_ne_nil (List.map_eq_nil_iff.mp h)

def Glyph.bytes (g : Glyph) : List UInt8 := g.sequence.bytes ++ String.utf8EncodeChar g.ch

/-- To the start of a row. -/
def CsiSequence.startOf (row : Nat) : CsiSequence :=
  ofDigits none [Digits.ofNat (row + 1), Digits.ofNat 1] 0x48 no_marker (List.cons_ne_nil _ _)
    (by decide)

/-- The bytes of lines that stand one below the other, from a row on. -/
def linesFrom {cols : Nat} (row : Nat) : List (DrawnLine cols) → List UInt8
  | [] => []
  | line :: lines =>
    (CsiSequence.startOf row).bytes ++ line.glyphs.flatMap Glyph.bytes ++ linesFrom (row + 1) lines

def Drawing.bytes {cols rows : Nat} (p : Drawing cols rows) : List UInt8 := linesFrom 0 p.lines

theorem codes_le {a : Attrs} (hfg : a.fg.IsBytes) (hbg : a.bg.IsBytes) :
    ∀ code ∈ a.codes, code ≤ Parser.u16Max := by
  have hflag (flag : Bool) {code : Nat} (h : code ≤ Parser.u16Max) :
      ∀ c ∈ flagCode flag code, c ≤ Parser.u16Max := by
    cases flag <;> simp [flagCode, h]
  have hcolor {target : Nat} (h : target ≤ Parser.u16Max) {color : Color}
      (hbytes : color.IsBytes) : ∀ c ∈ colorCodes target color, c ≤ Parser.u16Max := by
    unfold Parser.u16Max at h ⊢
    cases color with
    | default => simp [colorCodes]
    | indexed index =>
      unfold Color.IsBytes at hbytes
      simp only [colorCodes, List.forall_mem_cons, h, true_and]
      exact ⟨by omega, by omega, by simp⟩
    | rgb r g b =>
      obtain ⟨hr, hg, hb⟩ := hbytes
      simp only [colorCodes, List.forall_mem_cons, h, true_and]
      exact ⟨by omega, by omega, by omega, by omega, by simp⟩
  unfold Attrs.codes
  simp only [List.forall_mem_cons, List.forall_mem_append]
  exact ⟨Nat.zero_le _, ⟨⟨⟨⟨⟨⟨⟨⟨⟨hflag _ (by decide), hflag _ (by decide)⟩, hflag _ (by decide)⟩,
    hflag _ (by decide)⟩, hflag _ (by decide)⟩, hflag _ (by decide)⟩, hflag _ (by decide)⟩,
    hflag _ (by decide)⟩, hcolor (by decide) hfg⟩, hcolor (by decide) hbg⟩⟩

theorem Glyph.action_sequence (g : Glyph) : g.sequence.action = selectGraphics g.attrs.codes := by
  rw [sequence, CsiSequence.action_selectGraphics, List.map_map]
  congr 1
  refine (List.map_congr_left fun code hcode => ?_).trans (List.map_id _)
  exact Digits.param_ofNat (codes_le g.fg_bytes g.bg_bytes code hcode)

theorem CsiSequence.action_startOf {row : Nat} (h : row < Parser.u16Max) :
    (startOf row).action = .csi [row + 1, 1] [] false 0x48 := by
  rw [startOf, action_ofDigits, List.map_cons, List.map_singleton, Digits.param_ofNat h,
    Digits.param_ofNat (by decide)]
  rfl

namespace Parser

/-- A parser that is at rest reads the bytes as the actions, and is at rest afterwards. -/
def Reads (bytes : List UInt8) (actions : List Action) : Prop :=
  ∀ p : Parser, p.AtRest →
    Ends (fun r : Parser × List Action => r.1.AtRest ∧ r.2 = actions) (p.advance bytes)

variable {bytes bytes' : List UInt8} {actions actions' : List Action}

theorem reads_nil : Reads [] [] := fun _ h => Ends.some ⟨h, rfl⟩

theorem Reads.append (h : Reads bytes actions) (h' : Reads bytes' actions') :
    Reads (bytes ++ bytes') (actions ++ actions') := by
  intro p hp
  obtain ⟨⟨q, out⟩, hq, hrest, rfl⟩ := h p hp
  obtain ⟨⟨q', out'⟩, hq', hrest', rfl⟩ := h' q hrest
  refine ⟨(q', out ++ out'), ?_, hrest', rfl⟩
  rw [advance_append, hq, Option.bind_some, hq']
  rfl

theorem Reads.flatMap {α : Type} {bytes : α → List UInt8} {actions : α → List Action} (l : List α)
    (h : ∀ a ∈ l, Reads (bytes a) (actions a)) : Reads (l.flatMap bytes) (l.flatMap actions) := by
  induction l with
  | nil => exact reads_nil
  | cons a l ih =>
    rw [List.flatMap_cons, List.flatMap_cons]
    exact (h a List.mem_cons_self).append (ih fun b hb => h b (List.mem_cons_of_mem a hb))

theorem reads_sequence (s : CsiSequence) : Reads s.bytes [s.action] := fun _ h =>
  ⟨_, s.advance_bytes h.state, ⟨rfl, rfl, h.buffer⟩, rfl⟩

theorem reads_char {c : Char} (h : 0x20 ≤ c.toNat) :
    Reads (String.utf8EncodeChar c) [.print c] := by
  intro p hp
  rw [← charAction_of_printable h]
  exact hp.advance_char (Or.inl h)

end Parser

def Glyph.actions (g : Glyph) : List Action := [selectGraphics g.attrs.codes, .print g.ch]

theorem Glyph.reads (g : Glyph) : Parser.Reads g.bytes g.actions := by
  have hboth := (Parser.reads_sequence g.sequence).append (Parser.reads_char g.printable)
  rw [g.action_sequence] at hboth
  exact hboth

def lineActions {cols : Nat} (row : Nat) : List (DrawnLine cols) → List Action
  | [] => []
  | line :: lines =>
    .csi [row + 1, 1] [] false 0x48 :: line.glyphs.flatMap Glyph.actions ++
      lineActions (row + 1) lines

theorem reads_linesFrom {cols : Nat} (row : Nat) (lines : List (DrawnLine cols))
    (h : row + lines.length ≤ Parser.u16Max) :
    Parser.Reads (linesFrom row lines) (lineActions row lines) := by
  induction lines generalizing row with
  | nil => exact Parser.reads_nil
  | cons line lines ih =>
    rw [List.length_cons] at h
    have hstart := Parser.reads_sequence (CsiSequence.startOf row)
    rw [CsiSequence.action_startOf (by omega)] at hstart
    have hglyphs := Parser.Reads.flatMap line.glyphs fun g _ => g.reads
    exact (hstart.append hglyphs).append (ih (row + 1) (by omega))

end RemoteDesktopTool
