import RemoteDesktopTool.KeyInput

namespace RemoteDesktopTool

section Numbers

end Numbers

section Words

section ControlKeys

variable {final : Char}

end ControlKeys

/-- A control sequence that is read as this stroke. -/
structure ControlWord (stroke : Stroke) (word : List UInt8) : Prop where
  exists_parts : ∃ params final, word = 0x1B :: 0x5B :: (params ++ [final]) ∧
    (∀ b ∈ params, b < 0x80 ∧ isParameter (Parser.byteChar b) = true) ∧
    final < 0x80 ∧ isParameter (Parser.byteChar final) = false ∧
    ¬(params.map Parser.byteChar = ['2', '0', '0'] ∧ Parser.byteChar final = '~') ∧
    controlKey (params.map Parser.byteChar) (Parser.byteChar final) = some stroke

theorem readStroke_control {params text : Text} {final : Char}
    (hparams : ∀ c ∈ params, isParameter c = true) (hfinal : isParameter final = false) :
    readStroke ('\x1B' :: '[' :: (params ++ final :: text)) =
      readControl params (final :: text) := by
  have hstop : ¬isParameter final = true := by rw [hfinal]; exact Bool.false_ne_true
  rw [readStroke, List.takeWhile_append_of_pos hparams, List.takeWhile_cons_of_neg hstop,
    List.append_nil, List.dropWhile_append_of_pos hparams, List.dropWhile_cons_of_neg hstop]

theorem ControlWord.readStroke {stroke : Stroke} {word : List UInt8} (h : ControlWord stroke word)
    (rest : Text) :
    readStroke (word.map Parser.byteChar ++ rest) = some (stroke, rest) := by
  obtain ⟨params, final, rfl, hparams, -, hfinal, hpaste, hkey⟩ := h.exists_parts
  have hall : ∀ c ∈ params.map Parser.byteChar, isParameter c = true :=
    List.forall_mem_map.mpr fun b hb => (hparams b hb).2
  have hword : (0x1B :: 0x5B :: (params ++ [final])).map Parser.byteChar ++ rest =
      '\x1B' :: '[' :: (params.map Parser.byteChar ++ Parser.byteChar final :: rest) := by
    rw [List.map_cons, List.map_cons, List.map_append, List.map_singleton, List.cons_append,
      List.cons_append, List.append_assoc]
    rfl
  rw [hword, readStroke_control hall hfinal, readControl, if_neg hpaste, hkey]
  rfl

/-- Bytes that are read as this stroke, whatever follows them. -/
def Tells (stroke : Stroke) (word : List UInt8) : Prop :=
  (∀ b ∈ word, b < 0x80) ∧
    ∀ rest, readStroke (word.map Parser.byteChar ++ rest) = some (stroke, rest)

section Keys

variable (m : KeyModifier) (modes : Modes)

end Keys

end Words

end RemoteDesktopTool
