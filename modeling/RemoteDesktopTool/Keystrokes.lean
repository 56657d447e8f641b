import RemoteDesktopTool.KeyReading

namespace RemoteDesktopTool

variable {modes : Modes} {m : KeyModifier}

/-- A stroke beside the text that is sent for it. -/
inductive Sent : Stroke × Text → Prop
  | char (c : Char) : Sent (.char c, [c])
  | press {k : Key} {m : KeyModifier} {word : List UInt8} (hk : ∀ c, k ≠ .char c)
      (h : Tells (.press k m) word) : Sent (.press k m, word.map Parser.byteChar)
  | paste (text : Text) (modes : Modes) : Sent (.paste text, (Stroke.paste text).text modes)

section Words

variable {word : Stroke × Text} {rest rest' : Text}

theorem Sent.ne_nil (h : Sent word) : word.2 ≠ [] := by
  cases h with
  | char c => exact List.cons_ne_nil _ _
  | press hk h =>
    intro hnil
    have hread := h.2 []
    rw [show List.map Parser.byteChar _ = [] from hnil] at hread
    cases hread
  | paste text modes => exact List.cons_ne_nil _ _

end Words

/-- The strokes of an entry, each with its text. -/
def UserInput.words (modes : Modes) (e : UserInput) : List (Stroke × Text) :=
  (e.strokes modes).map fun stroke => (stroke, stroke.text modes)

end RemoteDesktopTool
