import RemoteDesktopTool.LogWriterCuts
import RemoteDesktopTool.RedactSecrets
import RemoteDesktopTool.Runs

namespace RemoteDesktopTool

namespace LogBuffer

theorem makeRoom_entries (capacity : Nat) (entries : List LogEntry) (dropped : Nat) :
    makeRoom capacity entries dropped =
      (entries.drop (entries.length + 1 - capacity),
        dropped + min entries.length (entries.length + 1 - capacity)) := by
  induction entries generalizing dropped with
  | nil => simp [makeRoom]
  | cons entry rest ih =>
    rw [makeRoom]
    split
    next hfull =>
      rw [List.length_cons] at hfull
      obtain ⟨n, hn⟩ : ∃ n, rest.length + 1 + 1 - capacity = n + 1 :=
        ⟨rest.length + 1 - capacity, by omega⟩
      have hrest : rest.length + 1 - capacity = n := by omega
      rw [ih, List.length_cons, hn, List.drop_succ_cons, hrest]
      exact congrArg (Prod.mk _) (by omega)
    next hroom =>
      have hzero : (entry :: rest).length + 1 - capacity = 0 := by omega
      rw [hzero, List.drop_zero, Nat.min_zero, Nat.add_zero]

variable {buffer : LogBuffer} {shown : List LogEntry}

/-- The newest entries, as many as the buffer can hold. -/
structure Holds (buffer : LogBuffer) (shown : List LogEntry) : Prop where
  entries : buffer.entries = shown.drop (shown.length - buffer.capacity)

theorem Holds.push (h : buffer.Holds shown) (entry : LogEntry) :
    (buffer.push entry).Holds (shown ++ [entry]) := by
  have hentries := h.entries
  constructor
  unfold LogBuffer.push
  split
  next hzero =>
    rw [hentries, hzero, Nat.sub_zero, Nat.sub_zero, List.drop_length, List.drop_length]
  next hpos =>
    have hlength : buffer.entries.length = min shown.length buffer.capacity := by
      rw [hentries, List.length_drop]
      omega
    have hdropped : shown.length - buffer.capacity +
        (min shown.length buffer.capacity + 1 - buffer.capacity) =
        shown.length + 1 - buffer.capacity := by omega
    dsimp only
    rw [makeRoom_entries, hlength, hentries, List.drop_drop, hdropped, List.length_append,
      List.length_singleton, List.drop_append_of_le_length (by omega)]

theorem Holds.clear (buffer : LogBuffer) : buffer.clear.Holds [] := ⟨List.drop_nil.symm⟩

theorem push_capacity (buffer : LogBuffer) (entry : LogEntry) :
    (buffer.push entry).capacity = buffer.capacity := by
  unfold LogBuffer.push
  split <;> rfl

end LogBuffer

/-- What happens to the shared state of the log: writes and flushes through handles with their
levels and targets, and the Logs page clearing the buffer. -/
inductive LogCall
  | write (level target : Text) (buf : List UInt8)
  | flush (level target : Text)
  | clear

namespace RedactingWriter

open Redactor

variable {W : Type} (writeAll : WriteAll W) (flushInner : W → Except IoError Unit × W)

def call (w : RedactingWriter W) : LogCall → RedactingWriter W
  | .write level target buf => (write writeAll (w.withMeta level target) buf).2
  | .flush level target => (flush writeAll flushInner (w.withMeta level target)).2
  | .clear => { w with buffer := w.buffer.clear }

section Secrets

/-- Without any of the registered secrets. -/
def Clean (r : Redactor) (text : Text) : Prop := ∀ secret ∈ r.secrets, ¬secret <:+: text

theorem clean_short (r : Redactor) {text : Text} (h : text.byteLen < 4) : Clean r text := by
  intro secret hmem hin
  have hlong := r.byteLen_ge secret hmem
  obtain ⟨front, back, rfl⟩ := hin
  simp only [Text.byteLen, asBytes_append, List.length_append] at h hlong
  omega

/-- No secret is in the buffer, and the sink is as if it had seen texts without secrets only. -/
structure KeepsSecrets (r : Redactor) (P : W → Prop) (w : RedactingWriter W) : Prop where
  redactor : w.redactor = r
  sink : P w.inner
  entries : ∀ entry ∈ w.buffer.entries, Clean r entry.message

variable {writeAll flushInner} {r : Redactor} {P : W → Prop} {w : RedactingWriter W}
  (hclear : ∀ secret ∈ r.secrets, ClearOfMarker secret)
  (hwrite : ∀ inner text, P inner → Clean r text → P (writeAll inner text.asBytes).2)
  (hflush : ∀ inner, P inner → P (flushInner inner).2)

include hclear

theorem KeepsSecrets.redactLine (h : KeepsSecrets r P w) (line : Text) :
    Clean r (w.redactLine line).1 ∧ KeepsSecrets r P (w.redactLine line).2 := by
  have hclean : Clean r (w.redactor.redact line) := by
    rw [h.redactor]
    exact r.not_infix_redact hclear line
  refine ⟨hclean, h.redactor, h.sink, fun entry hentry => ?_⟩
  change entry ∈ (w.buffer.push _).entries at hentry
  unfold LogBuffer.push at hentry
  split at hentry
  next => exact h.entries entry hentry
  next =>
    dsimp only at hentry
    rw [LogBuffer.makeRoom_entries] at hentry
    rcases List.mem_append.mp hentry with hentry | hentry
    · exact h.entries entry (List.mem_of_mem_drop hentry)
    · rw [List.mem_singleton.mp hentry]
      exact hclean

include hwrite

theorem KeepsSecrets.writeLine (h : KeepsSecrets r P w) (line : Text) :
    KeepsSecrets r P (writeLine writeAll w line).2 := by
  have hnewline : Clean r ['\n'] := clean_short r (by decide)
  unfold RedactingWriter.writeLine
  dsimp only
  split
  next => exact ⟨h.redactor, hwrite _ _ h.sink hnewline, h.entries⟩
  next =>
    obtain ⟨hclean, hkeeps⟩ := h.redactLine hclear (trimLine line)
    have hsink := hwrite _ _ hkeeps.sink hclean
    split
    next error inner hfail =>
      rw [hfail] at hsink
      exact ⟨hkeeps.redactor, hsink, hkeeps.entries⟩
    next inner hok =>
      rw [hok] at hsink
      exact ⟨hkeeps.redactor, hwrite _ _ hsink hnewline, hkeeps.entries⟩

theorem KeepsSecrets.drainLines (h : KeepsSecrets r P w) (pending : Text) :
    KeepsSecrets r P (drainLines writeAll w pending).2 := by
  induction w, pending using RedactingWriter.drainLines.induct writeAll with
  | case1 w pending hmem line rest error w' hfail =>
    have hline := KeepsSecrets.writeLine (w := { w with pending := rest }) hclear hwrite
      ⟨h.redactor, h.sink, h.entries⟩ line
    rw [hfail] at hline
    dsimp only [line, rest] at hfail
    rw [RedactingWriter.drainLines, if_pos hmem]
    dsimp only
    rw [hfail]
    exact hline
  | case2 w pending hmem line rest w' hok ih =>
    have hline := KeepsSecrets.writeLine (w := { w with pending := rest }) hclear hwrite
      ⟨h.redactor, h.sink, h.entries⟩ line
    rw [hok] at hline
    dsimp only [line, rest] at hok
    rw [RedactingWriter.drainLines, if_pos hmem]
    dsimp only
    rw [hok]
    exact ih hline
  | case3 w pending hmem =>
    rw [RedactingWriter.drainLines, if_neg hmem]
    exact ⟨h.redactor, h.sink, h.entries⟩

include hflush

theorem KeepsSecrets.flush (h : KeepsSecrets r P w) :
    KeepsSecrets r P (flush writeAll flushInner w).2 := by
  obtain ⟨hclean, hkeeps⟩ := KeepsSecrets.redactLine (w := { w with pending := [] }) hclear
    ⟨h.redactor, h.sink, h.entries⟩ (trimLine w.pending)
  have hsink := hwrite _ _ hkeeps.sink hclean
  unfold RedactingWriter.flush
  split
  next => exact ⟨h.redactor, hflush _ h.sink, h.entries⟩
  next =>
    dsimp only
    split
    next error inner hfail =>
      have hinner := congrArg Prod.snd hfail
      rw [show _ = inner from hinner] at hsink
      exact ⟨hkeeps.redactor, hsink, hkeeps.entries⟩
    next inner hok =>
      have hinner := congrArg Prod.snd hok
      rw [show _ = inner from hinner] at hsink
      exact ⟨hkeeps.redactor, hflush _ hsink, hkeeps.entries⟩

theorem KeepsSecrets.call (h : KeepsSecrets r P w) (c : LogCall) :
    KeepsSecrets r P (call writeAll flushInner w c) := by
  cases c with
  | write level target buf =>
    exact KeepsSecrets.drainLines (w := w.withMeta level target) hclear hwrite
      ⟨h.redactor, h.sink, h.entries⟩ _
  | flush level target =>
    exact KeepsSecrets.flush (w := w.withMeta level target) hclear hwrite hflush
      ⟨h.redactor, h.sink, h.entries⟩
  | clear => exact ⟨h.redactor, h.sink, List.forall_mem_nil _⟩

end Secrets

/-- Over every interleaving of writes and flushes through any handles, of any bytes and with any
failures of the sink: no secret is shown on the Logs page, and whatever of the sink is kept by
texts without secrets is kept. -/
theorem log_keeps_secrets {writeAll : WriteAll W} {flushInner : W → Except IoError Unit × W}
    {r : Redactor} {P : W → Prop} {inner : W}
    (hclear : ∀ secret ∈ r.secrets, ClearOfMarker secret)
    (hwrite : ∀ inner text, P inner → Clean r text → P (writeAll inner text.asBytes).2)
    (hflush : ∀ inner, P inner → P (flushInner inner).2) (hinner : P inner) (capacity : Nat)
    (calls : List LogCall) :
    P (Runs.after (call writeAll flushInner) (new inner r (.new capacity)) calls).inner ∧
      ∀ needle minLevel, ∀ entry ∈ (Runs.after (call writeAll flushInner)
        (new inner r (.new capacity)) calls).buffer.filter needle minLevel,
        Clean r entry.message := by
  have hstart : KeepsSecrets r P (new inner r (LogBuffer.new capacity)) :=
    ⟨rfl, hinner, List.forall_mem_nil _⟩
  have hstep (w : RedactingWriter W) (c : LogCall) (h : KeepsSecrets r P w) :
      KeepsSecrets r P (call writeAll flushInner w c) := h.call hclear hwrite hflush c
  have hkeeps := Runs.after_invariant hstep hstart calls
  refine ⟨hkeeps.sink, fun needle minLevel entry hentry => ?_⟩
  exact hkeeps.entries entry (List.mem_filter.mp hentry).1

/-- A sink that fails in the middle of every second text. -/
def tornSink : WriteAll (List (List UInt8)) := fun sent bytes =>
  if sent.length % 2 = 0 then (.ok (), sent ++ [bytes])
  else (.error ⟨.timedOut, []⟩, sent ++ [bytes.take (bytes.length / 2)])

def hunter : Redactor := Redactor.new.withSecret "hunter2".toList

theorem tornSink_keeps_hunter :
    (∀ bytes ∈ (Runs.after (call tornSink fun sent => (.ok (), sent)) (new [] hunter (.new 2))
      [.write "INFO".toList "rdt".toList (Text.asBytes "using hun".toList),
        .write "WARN".toList "ssh".toList (Text.asBytes "ter2 now\nlogin".toList),
        .flush "INFO".toList "rdt".toList]).inner,
      ¬Text.asBytes "hunter2".toList <:+: bytes) ∧
    ∀ needle minLevel, ∀ entry ∈ (Runs.after (call tornSink fun sent => (.ok (), sent))
      (new [] hunter (.new 2))
      [.write "INFO".toList "rdt".toList (Text.asBytes "using hun".toList),
        .write "WARN".toList "ssh".toList (Text.asBytes "ter2 now\nlogin".toList),
        .flush "INFO".toList "rdt".toList]).buffer.filter needle minLevel,
      Clean hunter entry.message := by
  refine log_keeps_secrets
    (P := fun sent => ∀ bytes ∈ sent, ¬Text.asBytes "hunter2".toList <:+: bytes) (by decide) ?_
    (fun _ h => h) (List.forall_mem_nil _) 2 _
  intro sent text hsent hclean
  have hbytes : Text.asBytes "hunter2".toList <:+: text.asBytes ↔ "hunter2".toList <:+: text :=
    asBytes_infix_iff (by decide)
  have htext : ¬Text.asBytes "hunter2".toList <:+: text.asBytes := fun hin =>
    hclean _ (by decide) (hbytes.mp hin)
  unfold tornSink
  split
  next => exact List.forall_mem_append.mpr ⟨hsent, List.forall_mem_singleton.mpr htext⟩
  next =>
    refine List.forall_mem_append.mpr ⟨hsent, List.forall_mem_singleton.mpr fun hin => ?_⟩
    exact htext (hin.trans (List.take_prefix _ _).isInfix)

end RedactingWriter

end RemoteDesktopTool
