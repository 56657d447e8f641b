import Mathlib.Data.List.DropRight
import RemoteDesktopTool.LogPipeline

namespace RemoteDesktopTool

open Masking Redactor

namespace LogCall

/-- What a call adds to the text of the log. -/
def decoded : LogCall → Text
  | .write _ _ buf => fromUtf8Lossy buf
  | .flush _ _ | .clear => []

def isClear : LogCall → Bool
  | .clear => true
  | .write _ _ _ | .flush _ _ => false

end LogCall

namespace RedactingWriter

def isBlank (line : Text) : Bool := (trimLine line).isEmpty

/-- The messages that are mirrored of complete lines. -/
def messagesOf (r : Redactor) (lines : List Text) : List Text :=
  (lines.filter fun line => !isBlank line).map fun line => r.redact (trimLine line)

theorem messagesOf_cons (r : Redactor) (line : Text) (lines : List Text) :
    messagesOf r (line :: lines) =
      (if isBlank line then [] else [r.redact (trimLine line)]) ++ messagesOf r lines := by
  unfold messagesOf
  cases hblank : isBlank line <;> simp [hblank]

variable {r : Redactor} {w : RedactingWriter (List UInt8)}

theorem holds_takeLine {shown : List LogEntry} (hr : w.redactor = r) (h : w.buffer.Holds shown)
    (line : Text) :
    ∃ more, (w.takeLine line).buffer.Holds (shown ++ more) ∧
      more.map LogEntry.message = if isBlank line then [] else [r.redact (trimLine line)] := by
  unfold takeLine isBlank
  split
  next => exact ⟨[], (List.append_nil shown).symm ▸ h, rfl⟩
  next => exact ⟨[_], h.push _, by rw [← hr]; rfl⟩

theorem holds_lines {shown : List LogEntry} (hr : w.redactor = r) (h : w.buffer.Holds shown)
    (lines : List Text) :
    ∃ more, (lines.foldl takeLine w).buffer.Holds (shown ++ more) ∧
      more.map LogEntry.message = messagesOf r lines := by
  induction lines generalizing w shown with
  | nil => exact ⟨[], (List.append_nil shown).symm ▸ h, rfl⟩
  | cons line lines ih =>
    obtain ⟨first, hfirst, hmessage⟩ := holds_takeLine hr h line
    obtain ⟨more, hmore, hmessages⟩ := ih (w := w.takeLine line) hr hfirst
    refine ⟨first ++ more, List.append_assoc shown first more ▸ hmore, ?_⟩
    rw [List.map_append, hmessage, hmessages, messagesOf_cons]

theorem foldl_takeLine_redactor (lines : List Text) (w : RedactingWriter (List UInt8)) :
    (lines.foldl takeLine w).redactor = w.redactor ∧
      (lines.foldl takeLine w).buffer.capacity = w.buffer.capacity := by
  induction lines generalizing w with
  | nil => exact ⟨rfl, rfl⟩
  | cons line lines ih =>
    obtain ⟨hredactor, hcapacity⟩ := ih (w.takeLine line)
    refine ⟨hredactor, hcapacity.trans ?_⟩
    unfold takeLine
    dsimp only
    split
    next => rfl
    next => exact LogBuffer.push_capacity _ _

/-- The lines of the text so far are in the sink, and the newest of those since the last clear in
the buffer. -/
structure Mirrors (r : Redactor) (capacity : Nat) (text : Text) (before since : List Text)
    (w : RedactingWriter (List UInt8)) : Prop where
  redactor : w.redactor = r
  text_eq : text = wholeLines (before ++ since) ++ w.pending
  lines : Lines (before ++ since)
  pending : '\n' ∉ w.pending
  sink : w.inner = Text.asBytes (wholeLines ((before ++ since).map (sentLine r)))
  capacity_eq : w.buffer.capacity = capacity
  shown : ∃ shown, w.buffer.Holds shown ∧ shown.map LogEntry.message = messagesOf r since

variable {capacity : Nat} {text : Text} {before since : List Text}

theorem Mirrors.write (h : Mirrors r capacity text before since w) (level target : Text)
    (buf : List UInt8) :
    ∃ more, Mirrors r capacity (text ++ fromUtf8Lossy buf) before (since ++ more)
      (write record (w.withMeta level target) buf).2 := by
  obtain ⟨shown, hholds, hmessages⟩ := h.shown
  obtain ⟨more, rest, hsplit, hmore, hrest⟩ := exists_lines (w.pending ++ fromUtf8Lossy buf)
  have hpending : (w.withMeta level target).pending ++ fromUtf8Lossy buf =
      wholeLines more ++ rest := hsplit
  have hwrite := write_record hmore hrest hpending
  obtain ⟨new, hnew, hmessage⟩ := holds_lines (w := w.withMeta level target) h.redactor hholds more
  obtain ⟨hredactor, hcapacity⟩ := foldl_takeLine_redactor more (w.withMeta level target)
  rw [hwrite]
  refine ⟨more, hredactor.trans h.redactor, ?_, ?_, hrest, ?_, hcapacity.trans h.capacity_eq,
    shown ++ new, hnew, ?_⟩
  · rw [h.text_eq, List.append_assoc, hsplit, ← List.append_assoc, ← wholeLines_append,
      List.append_assoc before]
  · rw [← List.append_assoc]
    exact List.forall_mem_append.mpr ⟨h.lines, hmore⟩
  · change (more.foldl takeLine (w.withMeta level target)).inner = _
    have hsame : (w.withMeta level target).redactor = r := h.redactor
    have hinner : (w.withMeta level target).inner =
        Text.asBytes (wholeLines ((before ++ since).map (sentLine r))) := h.sink
    rw [foldl_takeLine_inner, hsame, hinner, ← asBytes_append, ← wholeLines_append,
      ← List.map_append, List.append_assoc]
  · rw [List.map_append, hmessages, hmessage, messagesOf, messagesOf, messagesOf,
      List.filter_append, List.map_append]

theorem Mirrors.flush (h : Mirrors r capacity text before since w)
    (hend : ∀ c ∈ text.getLast?, c = '\n') (level target : Text) :
    (flush record (fun sent => (.ok (), sent)) (w.withMeta level target)).2 =
      w.withMeta level target := by
  have hpending : w.pending = [] := by
    rcases List.eq_nil_or_concat w.pending with hnil | ⟨front, c, hconcat⟩
    · exact hnil
    · have hlast : c ∈ text.getLast? := by
        rw [h.text_eq, hconcat, List.concat_eq_append, ← List.append_assoc, List.getLast?_concat]
        exact rfl
      obtain rfl := hend c hlast
      refine absurd ?_ h.pending
      rw [hconcat, List.concat_eq_append]
      exact List.mem_append_right front List.mem_cons_self
  have hempty : (w.withMeta level target).pending.isEmpty = true := by
    rw [List.isEmpty_iff]
    exact hpending
  unfold RedactingWriter.flush
  rw [if_pos hempty]

/-- One call, where no flush comes while a line is incomplete. -/
theorem Mirrors.call (h : Mirrors r capacity text before since w) (c : LogCall)
    (hend : ∀ level target, c = .flush level target → ∀ c ∈ text.getLast?, c = '\n') :
    ∃ before' since', Mirrors r capacity (text ++ c.decoded) before' since'
        (call record (fun sent => (.ok (), sent)) w c) ∧
      before' = if c.isClear then before ++ since else before := by
  cases c with
  | write level target buf =>
    obtain ⟨more, hmore⟩ := h.write level target buf
    exact ⟨before, since ++ more, hmore, rfl⟩
  | flush level target =>
    refine ⟨before, since, ?_, rfl⟩
    rw [LogCall.decoded, List.append_nil, RedactingWriter.call,
      h.flush (hend level target rfl) level target]
    exact ⟨h.redactor, h.text_eq, h.lines, h.pending, h.sink, h.capacity_eq, h.shown⟩
  | clear =>
    refine ⟨before ++ since, [], ?_, rfl⟩
    rw [LogCall.decoded, List.append_nil]
    refine ⟨h.redactor, ?_, ?_, h.pending, ?_, h.capacity_eq, [], LogBuffer.Holds.clear _, rfl⟩
    · rw [List.append_nil]
      exact h.text_eq
    · rw [List.append_nil]
      exact h.lines
    · rw [List.append_nil]
      exact h.sink

end RedactingWriter

end RemoteDesktopTool
