import RemoteDesktopTool.Display
import RemoteDesktopTool.Utf8Cuts

namespace RemoteDesktopTool

section

universe u

variable {α : Type u} {c : α} {front text rest after : List α}

theorem cut_behind (hfront : c ∉ front) {before tail : List α}
    (h : front ++ text = before ++ c :: tail) :
    ∃ gap, before = front ++ gap ∧ text = gap ++ c :: tail := by
  rcases List.append_eq_append_iff.mp h with ⟨gap, rfl, htext⟩ | ⟨gap, rfl, hcons⟩
  · exact ⟨gap, rfl, htext⟩
  · cases gap with
    | nil => exact ⟨[], by simp, by simpa using hcons.symm⟩
    | cons first gap =>
      obtain ⟨rfl, _⟩ := List.cons.inj hcons
      exact absurd (by simp) hfront

/-- The pattern stands in front of `after` and nowhere else. -/
def OnlyBefore (pattern after text : List α) : Prop :=
  pattern ++ after <:+ text ∧ ∀ before behind, text = before ++ pattern ++ behind → behind = after

/-- Between an opening and a closing pattern that both begin with a symbol they do not have
again, the closing one is found at the end only if the text does not have it. -/
theorem onlyBefore_bracketed_iff (hfront : c ∉ front) (hrest : c ∉ rest) (hafter : c ∉ after)
    (hlen : front.length = rest.length) (hne : front ≠ rest) :
    OnlyBefore (c :: rest) after (c :: front ++ text ++ (c :: rest ++ after)) ↔
      ¬c :: rest <:+: text := by
  constructor
  · rintro ⟨_, honly⟩ ⟨before, behind, rfl⟩
    have hbehind := honly (c :: front ++ before) (behind ++ (c :: rest ++ after)) (by simp)
    have hlength := congrArg List.length hbehind
    simp only [List.length_append, List.length_cons] at hlength
    omega
  · intro hnot
    refine ⟨⟨c :: front ++ text, rfl⟩, fun before behind h => ?_⟩
    rw [List.cons_append, List.cons_append, List.append_assoc, List.append_assoc] at h
    cases before with
    | nil =>
      have hcut : front ++ (text ++ (c :: rest ++ after)) = rest ++ behind := (List.cons.inj h).2
      exact absurd (List.append_inj hcut hlen).1 hne
    | cons first before =>
      obtain ⟨rfl, hcut⟩ := List.cons.inj h
      obtain ⟨gap, rfl, hgap⟩ := cut_behind hfront hcut
      rcases List.append_eq_append_iff.mp hgap with ⟨piece, _, hpiece⟩ | ⟨piece, rfl, hpiece⟩
      · cases piece with
        | nil => exact (List.append_cancel_left (List.cons.inj hpiece).2).symm
        | cons first piece =>
          have htail : rest ++ after = piece ++ c :: (rest ++ behind) := (List.cons.inj hpiece).2
          have hmem : c ∈ rest ++ after := by
            rw [htail]
            exact List.mem_append_right piece List.mem_cons_self
          rcases List.mem_append.mp hmem with hmem | hmem
          · exact absurd hmem hrest
          · exact absurd hmem hafter
      · cases piece with
        | nil => exact List.append_cancel_left (List.cons.inj hpiece).2
        | cons first piece =>
          obtain ⟨rfl, htail⟩ := List.cons.inj hpiece
          obtain ⟨gap', rfl, _⟩ := cut_behind hrest htail
          exact absurd ⟨gap, gap', by simp⟩ hnot

end

def pasteStart : List UInt8 := [0x1B, 0x5B, 0x32, 0x30, 0x30, 0x7E]

def pasteEnd : Text := ['\x1B', '[', '2', '0', '1', '~']

def encodePaste (text : Text) (modes : Modes) : List UInt8 :=
  if !modes.bracketedPaste then text.asBytes
  else pasteStart ++ text.asBytes ++ pasteEnd.asBytes

def encodeLine (command : Text) (modes : Modes) : List UInt8 :=
  encodePaste command modes ++ [0x0D]

/-- The end of the bracket is where the pasted text ends, and nowhere before. -/
def StaysInBracket (text : Text) (modes : Modes) : Prop :=
  OnlyBefore pasteEnd.asBytes [] (encodePaste text modes) ∧
    OnlyBefore pasteEnd.asBytes [0x0D] (encodeLine text modes)

theorem pasteEnd_asBytes : pasteEnd.asBytes = [0x1B, 0x5B, 0x32, 0x30, 0x31, 0x7E] := by decide

theorem onlyBefore_pasteEnd_iff (text : Text) {after : List UInt8} (hafter : 0x1B ∉ after) :
    OnlyBefore pasteEnd.asBytes after (pasteStart ++ text.asBytes ++ (pasteEnd.asBytes ++ after)) ↔
      ¬pasteEnd <:+: text := by
  have hinfix : pasteEnd.asBytes <:+: text.asBytes ↔ pasteEnd <:+: text :=
    asBytes_infix_iff (by decide)
  rw [← hinfix, pasteEnd_asBytes]
  exact onlyBefore_bracketed_iff (by decide) (by decide) hafter rfl (by decide)

/-- A pasted text keeps within its bracket exactly if it does not have the end of one. -/
theorem staysInBracket_iff (text : Text) (modes : Modes) (h : modes.bracketedPaste = true) :
    StaysInBracket text modes ↔ ¬pasteEnd <:+: text := by
  have hpaste : encodePaste text modes =
      pasteStart ++ text.asBytes ++ (pasteEnd.asBytes ++ []) := by
    simp [encodePaste, h]
  have hline : encodeLine text modes =
      pasteStart ++ text.asBytes ++ (pasteEnd.asBytes ++ [0x0D]) := by
    simp [encodeLine, encodePaste, h]
  rw [StaysInBracket, hpaste, hline, onlyBefore_pasteEnd_iff text (by simp),
    onlyBefore_pasteEnd_iff text (by decide), and_self]

def bracketedModes : Modes := { (Display.new 80 24).modes with bracketedPaste := true }

theorem staysInBracket_list : StaysInBracket "ls".toList bracketedModes ↔
    ¬pasteEnd <:+: "ls".toList :=
  staysInBracket_iff "ls".toList bracketedModes rfl

/-- The clipboard ends the bracket itself, and a command follows. -/
theorem terminator_leaves_bracket :
    ¬StaysInBracket (pasteEnd ++ "reboot\r".toList) bracketedModes := by
  rintro ⟨⟨_, honly⟩, _⟩
  have hbehind := honly pasteStart (Text.asBytes "reboot\r".toList ++ pasteEnd.asBytes) (by decide)
  revert hbehind
  decide

end RemoteDesktopTool
