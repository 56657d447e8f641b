import RemoteDesktopTool.Tracing

namespace RemoteDesktopTool

/-- A character with its position in the text; the marker has none. -/
abbrev Numbered : Type := Char × Option Nat

def numbered (n : Nat) (text : Text) : List Numbered :=
  (text.zipIdx n).map fun p => (p.1, some p.2)

def numberedMark : List Numbered := redacted.map fun c => (c, none)

theorem head_numberedMark : numberedMark.head? = some ('<', none) := by decide

theorem numbered_cons (n : Nat) (c : Char) (text : Text) :
    numbered n (c :: text) = (c, some n) :: numbered (n + 1) text := by
  rw [numbered, List.zipIdx_cons, List.map_cons]
  rfl

theorem map_fst_numbered (n : Nat) (text : Text) : (numbered n text).map Prod.fst = text := by
  rw [numbered, List.map_map]
  exact List.zipIdx_map_fst n text

namespace Redactor

/-- Where the characters of what `redact` returns come from; those of a marker come from
nowhere. -/
def origins (r : Redactor) (text : Text) : List (Option Nat) :=
  (r.redactTokens Prod.fst numberedMark (numbered 0 text)).map Prod.snd

/-- Numbering the characters does not change what is done with them. -/
theorem redactTokens_numbered (r : Redactor) (text : Text) :
    (r.redactTokens Prod.fst numberedMark (numbered 0 text)).map Prod.fst = r.redact text := by
  have hmark : numberedMark.map Prod.fst = redacted := by decide
  rw [map_redactTokens Prod.fst id Prod.fst fun _ => rfl, hmark, map_fst_numbered]
  rfl

end Redactor

end RemoteDesktopTool
