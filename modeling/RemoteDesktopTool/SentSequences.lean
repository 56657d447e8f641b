import RemoteDesktopTool.CsiSequences
import RemoteDesktopTool.TerminalFits

namespace RemoteDesktopTool

open Checked

/-- The digits of a parameter, as they are sent. -/
structure Digits where
  run : List UInt8
  isDigit : ∀ byte ∈ run, Parser.isDigit byte = true

def Digits.param (digits : Digits) : Nat := CsiSequence.param digits.run

/-- What a parser in the ground state is behind a sequence. -/
def Parser.settled (p : Parser) : Parser := { p.clear with state := .ground }

namespace CsiSequence

theorem no_marker : ∀ byte ∈ (none : Option UInt8), Parser.within 0x3C 0x3F byte = true :=
  fun _ h => absurd h (Option.not_mem_none _)

theorem no_intermediates : ∀ byte ∈ ([] : List UInt8), Parser.within 0x20 0x2F byte = true :=
  fun _ h => absurd h List.not_mem_nil

/-- A sequence without intermediate bytes. -/
def ofDigits (marker : Option UInt8) (digits : List Digits) (final : UInt8)
    (hmarker : ∀ byte ∈ marker, Parser.within 0x3C 0x3F byte = true) (hne : digits ≠ [])
    (hfinal : Parser.within 0x40 0x7E final = true) : CsiSequence where
  marker := marker
  digits := digits.map Digits.run
  intermediates := []
  final := final
  marker_within := hmarker
  digits_ne_nil := fun h => hne (List.map_eq_nil_iff.mp h)
  isDigit := by
    intro run hrun
    obtain ⟨digits, _, rfl⟩ := List.mem_map.mp hrun
    exact digits.isDigit
  intermediates_within := no_intermediates
  final_within := hfinal

theorem action_ofDigits {marker : Option UInt8} {digits : List Digits} {final : UInt8}
    (hmarker : ∀ byte ∈ marker, Parser.within 0x3C 0x3F byte = true) (hne : digits ≠ [])
    (hfinal : Parser.within 0x40 0x7E final = true) :
    (ofDigits marker digits final hmarker hne hfinal).action =
      .csi (digits.map Digits.param) marker.toList false final := by
  rw [action, ofDigits, List.map_map, List.append_nil]
  rfl

end CsiSequence

namespace Parser

variable {p : Parser}

theorem settled_settled (p : Parser) : p.settled.settled = p.settled := rfl

theorem advance_sequences (h : p.state = .ground) (s : CsiSequence)
    (sequences : List CsiSequence) :
    p.advance (s.bytes ++ sequences.flatMap CsiSequence.bytes) =
      some (p.settled, s.action :: sequences.map CsiSequence.action) := by
  induction sequences generalizing p s with
  | nil =>
    rw [List.flatMap_nil, List.append_nil]
    exact s.advance_bytes h
  | cons next sequences ih =>
    have hfirst : p.advance s.bytes = some (p.settled, [s.action]) := s.advance_bytes h
    rw [List.flatMap_cons, advance_append, hfirst, Option.bind_some, ih rfl next, settled_settled]
    rfl

end Parser

namespace Terminal

variable {t : Terminal}

theorem not_fullReset (s : CsiSequence) : s.action.isFullReset = false := rfl

theorem run_apply_of_not_reset {actions : List Action}
    (h : ∀ action ∈ actions, action.isFullReset = false) (t : Terminal) :
    run apply actions t = (run Display.apply actions t.toDisplay).map fun d =>
      ofParts d t.parser := by
  have hnone : actions.any Action.isFullReset = false := by
    rw [List.any_eq_false]
    intro action haction
    simp [h action haction]
  rw [run_apply_eq, hnone]
  rfl

/-- Control sequences that are read in the ground state act on the display one after the other. -/
theorem advance_sequences (h : t.parser.state = .ground) (s : CsiSequence)
    (sequences : List CsiSequence) :
    t.advance (s.bytes ++ sequences.flatMap CsiSequence.bytes) =
      (run Display.apply (s.action :: sequences.map CsiSequence.action) t.toDisplay).map fun d =>
        ofParts d t.parser.settled := by
  have hreset : (s.action :: sequences.map CsiSequence.action).any Action.isFullReset = false := by
    rw [List.any_eq_false]
    intro action haction
    rw [← List.map_cons (f := CsiSequence.action)] at haction
    obtain ⟨sequence, _, rfl⟩ := List.mem_map.mp haction
    simp [not_fullReset]
  rw [advance_eq, Parser.advance_sequences h, Option.bind_some, hreset]
  rfl

theorem advance_csi (h : t.parser.state = .ground) (s : CsiSequence) :
    t.advance s.bytes =
      (Display.apply s.action t.toDisplay).map fun d => ofParts d t.parser.settled := by
  have hone := advance_sequences h s []
  rw [List.flatMap_nil, List.append_nil, List.map_nil, run_singleton] at hone
  exact hone

end Terminal

end RemoteDesktopTool
