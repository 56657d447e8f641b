import RemoteDesktopTool.Joined
import RemoteDesktopTool.ControlStrings

namespace RemoteDesktopTool

open Checked

/-- A well-formed control sequence: a private marker, the digits of each parameter, intermediate
bytes and the final byte. -/
structure CsiSequence where
  marker : Option UInt8
  digits : List (List UInt8)
  intermediates : List UInt8
  final : UInt8
  marker_within : ∀ byte ∈ marker, Parser.within 0x3C 0x3F byte = true
  digits_ne_nil : digits ≠ []
  isDigit : ∀ run ∈ digits, ∀ byte ∈ run, Parser.isDigit byte = true
  intermediates_within : ∀ byte ∈ intermediates, Parser.within 0x20 0x2F byte = true
  final_within : Parser.within 0x40 0x7E final = true

namespace CsiSequence

/-- The number that a run of digits stands for; an empty one stands for 0. -/
def value (run : List UInt8) : Nat := run.foldl (fun n byte => 10 * n + Parser.digit byte) 0

def param (run : List UInt8) : Nat := min Parser.u16Max (value run)

def bytes (s : CsiSequence) : List UInt8 :=
  [0x1B, 0x5B] ++ s.marker.toList ++ [0x3B].intercalate s.digits ++ s.intermediates ++ [s.final]

def action (s : CsiSequence) : Action :=
  .csi (s.digits.map param) (s.marker.toList ++ s.intermediates) false s.final

end CsiSequence

namespace Parser

variable {p q : Parser} {byte : UInt8}

theorem advance_cons_step {out : List Action} {bytes : List UInt8}
    (h : p.step byte = some (q, out)) :
    p.advance (byte :: bytes) = (q.advance bytes).map fun r => (r.1, out ++ r.2) := by
  rw [advance, h]
  change (q.advance bytes >>= fun r => some (r.1, out ++ r.2)) = _
  cases q.advance bytes <;> rfl

theorem advance_cons_silent {bytes : List UInt8} (h : p.step byte = some (q, [])) :
    p.advance (byte :: bytes) = q.advance bytes := by
  rw [advance_cons_step h]
  exact Option.map_id'

/-- The bytes of a control sequence behind its marker: digits, separators, intermediate bytes and
the final one. -/
def IsCsiByte (byte : UInt8) : Prop :=
  isDigit byte = true ∨ byte = 0x3B ∨ within 0x20 0x2F byte = true ∨ within 0x40 0x7E byte = true

theorem IsCsiByte.within (h : IsCsiByte byte) : within 0x20 0x7E byte = true := by
  rcases h with h | rfl | h | h
  · exact within_of_within (by decide) (by decide) h
  · rfl
  · exact within_of_within (by decide) (by decide) h
  · exact within_of_within (by decide) (by decide) h

theorem digit_le (h : isDigit byte = true) : digit byte ≤ 9 := by
  have hbounds := (within_iff.mp h).2
  rw [UInt8.le_iff_toNat_le] at hbounds
  change byte.toNat ≤ 57 at hbounds
  simp only [digit]
  omega

/-- Which branch a byte behind the parameters takes. -/
theorem intermediate_excludes (h : Parser.within 0x20 0x2F byte = true) :
    isDigit byte = false ∧ byte ≠ 0x3B ∧ byte ≠ 0x3A ∧ Parser.within 0x3C 0x3F byte = false :=
  ⟨not_within_of_within (by decide) h, ne_of_within_of_lt (by decide) h,
    ne_of_within_of_lt (by decide) h, not_within_of_within (by decide) h⟩

theorem final_excludes (h : Parser.within 0x40 0x7E byte = true) :
    isDigit byte = false ∧ byte ≠ 0x3B ∧ byte ≠ 0x3A ∧ Parser.within 0x3C 0x3F byte = false ∧
      Parser.within 0x20 0x2F byte = false :=
  ⟨not_within_of_within (by decide) h, ne_of_within_of_lt (by decide) h,
    ne_of_within_of_lt (by decide) h, not_within_of_within (by decide) h,
    not_within_of_within (by decide) h⟩

theorem IsCsiByte.csiEntry_eq (h : IsCsiByte byte) (hnone : p.currentParam = none) :
    p.csiEntry byte = csiParam { p with state := .csiParam } byte := by
  rcases h with h | rfl | h | h
  · have hdigit := digit_le h
    have hread : min (min (min 0 u16Max + digit byte) u16Max) u16Max = digit byte := by
      simp only [u16Max]
      omega
    simp only [csiEntry, csiParam, h, if_true, pushDigit, hnone, Option.getD_none, Nat.zero_mul,
      hread]
  · rfl
  · obtain ⟨hdigit, hsemicolon, hcolon, hmarker⟩ := intermediate_excludes h
    simp only [csiEntry, csiParam, hdigit, hsemicolon, hcolon, hmarker, h, Bool.false_eq_true,
      if_false, if_true]
    rfl
  · obtain ⟨hdigit, hsemicolon, hcolon, hmarker, hintermediate⟩ := final_excludes h
    simp only [csiEntry, csiParam, hdigit, hsemicolon, hcolon, hmarker, hintermediate, h,
      Bool.false_eq_true, if_false, if_true]
    rfl

theorem advance_csiEntry (h : IsCsiByte byte) (hstate : p.state = .csiEntry)
    (hnone : p.currentParam = none) (bytes : List UInt8) :
    p.advance (byte :: bytes) = advance { p with state := .csiParam } (byte :: bytes) := by
  have hstep : p.step byte = step { p with state := .csiParam } byte := by
    rw [step_of_within h.within, step_of_within h.within, dispatch, hstate]
    exact congrArg some (h.csiEntry_eq hnone)
  rw [advance, hstep, advance]

section

variable (hstate : p.state = .csiParam)

include hstate

theorem step_csiParam (h : IsCsiByte byte) : p.step byte = some (p.csiParam byte) := by
  rw [step_of_within h.within, dispatch, hstate]

theorem advance_digit (h : isDigit byte = true) (bytes : List UInt8) :
    p.advance (byte :: bytes) = (p.pushDigit byte).advance bytes := by
  have hstep : p.step byte = some (p.pushDigit byte, []) := by
    rw [step_csiParam hstate (.inl h), csiParam, if_pos h]
  exact advance_cons_silent hstep

theorem advance_semicolon (bytes : List UInt8) :
    p.advance (0x3B :: bytes) = p.pushParam.advance bytes := by
  have hstep : p.step 0x3B = some (p.pushParam, []) := step_csiParam hstate (.inr (.inl rfl))
  exact advance_cons_silent hstep

theorem advance_digits {run : List UInt8} (h : ∀ byte ∈ run, isDigit byte = true)
    (bytes : List UInt8) : p.advance (run ++ bytes) = (run.foldl pushDigit p).advance bytes := by
  induction run generalizing p with
  | nil => rfl
  | cons byte run ih =>
    have hrest := fun b hb => h b (List.mem_cons_of_mem byte hb)
    rw [List.cons_append, advance_digit hstate (h byte List.mem_cons_self), List.foldl_cons]
    exact ih hstate hrest

end

/-- The value read so far, cut off at the largest parameter. -/
theorem foldl_pushDigit_value {run : List UInt8} {n : Nat}
    (h : p.currentParam.getD 0 = min u16Max n) :
    (run.foldl pushDigit p).currentParam.getD 0 =
      min u16Max (run.foldl (fun n byte => 10 * n + digit byte) n) := by
  induction run generalizing p n with
  | nil => exact h
  | cons byte run ih =>
    refine ih ?_
    simp only [pushDigit, Option.getD_some, h]
    omega

theorem foldl_pushDigit_param (run : List UInt8) (hnone : p.currentParam = none) :
    (run.foldl pushDigit p).currentParam.getD 0 = CsiSequence.param run := by
  refine foldl_pushDigit_value ?_
  rw [hnone]
  rfl

theorem foldl_pushDigit_frame (run : List UInt8) :
    (run.foldl pushDigit p).state = p.state ∧ (run.foldl pushDigit p).params = p.params ∧
      (run.foldl pushDigit p).intermediates = p.intermediates ∧
      (run.foldl pushDigit p).ignore = p.ignore := by
  induction run generalizing p with
  | nil => exact ⟨rfl, rfl, rfl, rfl⟩
  | cons byte run ih => exact ih

theorem step_intermediate (hstate : p.state = .csiParam ∨ p.state = .csiIntermediate)
    (h : within 0x20 0x2F byte = true) :
    p.step byte = some ({ p.pushIntermediate byte with state := .csiIntermediate }, []) := by
  obtain ⟨hdigit, hsemicolon, hcolon, _⟩ := intermediate_excludes h
  rw [step_of_within (within_of_within (by decide) (by decide) h), dispatch]
  rcases hstate with hstate | hstate
  · simp only [hstate, csiParam, hdigit, hsemicolon, hcolon, h, Bool.false_eq_true, if_false,
      if_true]
  · simp only [hstate, csiIntermediate, h, if_true, pushIntermediate]

theorem step_final (hstate : p.state = .csiParam ∨ p.state = .csiIntermediate)
    (h : within 0x40 0x7E byte = true) : p.step byte = some (p.csiDispatch byte) := by
  obtain ⟨hdigit, hsemicolon, hcolon, hmarker, hintermediate⟩ := final_excludes h
  have hquestion : within 0x30 0x3F byte = false := not_within_of_within (by decide) h
  rw [step_of_within (within_of_within (by decide) (by decide) h), dispatch]
  rcases hstate with hstate | hstate
  · simp only [hstate, csiParam, hdigit, hsemicolon, hcolon, hintermediate, h, Bool.false_eq_true,
      if_false, if_true]
  · simp only [hstate, csiIntermediate, hintermediate, hquestion, h, Bool.false_eq_true, if_false,
      if_true]

/-- The parser behind a dispatched sequence. -/
def dispatched (p : Parser) : Parser :=
  { p with
    params := []
    intermediates := []
    ignore := false
    currentParam := none
    state := .ground }

theorem foldl_pushDigit_dispatched (run : List UInt8) :
    (run.foldl pushDigit p).dispatched = p.dispatched := by
  induction run generalizing p with
  | nil => rfl
  | cons byte run ih => exact ih

/-- The bytes behind the parameters end in the dispatch of what was collected. -/
theorem advance_ending {intermediates : List UInt8} {final : UInt8}
    (hstate : p.state = .csiParam ∨ p.state = .csiIntermediate)
    (hinter : ∀ byte ∈ intermediates, within 0x20 0x2F byte = true)
    (hfinal : within 0x40 0x7E final = true) :
    p.advance (intermediates ++ [final]) = some (p.dispatched,
      [.csi (p.params ++ [p.currentParam.getD 0]) (p.intermediates ++ intermediates) p.ignore
        final]) := by
  induction intermediates generalizing p with
  | nil =>
    rw [List.nil_append, advance_cons_step (step_final hstate hfinal), List.append_nil]
    rfl
  | cons byte intermediates ih =>
    have hstep := step_intermediate hstate (hinter byte List.mem_cons_self)
    have hrest := @ih { p.pushIntermediate byte with state := .csiIntermediate }
      (.inr rfl) fun b hb => hinter b (List.mem_cons_of_mem byte hb)
    rw [List.cons_append, advance_cons_silent hstep, hrest]
    simp [pushIntermediate, dispatched]

/-- From the first parameter on: every run of digits becomes a parameter. -/
theorem advance_body {run : List UInt8} {runs : List (List UInt8)} {intermediates : List UInt8}
    {final : UInt8} (hstate : p.state = .csiParam) (hnone : p.currentParam = none)
    (hdigits : ∀ r ∈ run :: runs, ∀ byte ∈ r, isDigit byte = true)
    (hinter : ∀ byte ∈ intermediates, within 0x20 0x2F byte = true)
    (hfinal : within 0x40 0x7E final = true) :
    p.advance ([0x3B].intercalate (run :: runs) ++ intermediates ++ [final]) = some (p.dispatched,
      [.csi (p.params ++ (run :: runs).map CsiSequence.param) (p.intermediates ++ intermediates)
        p.ignore final]) := by
  induction runs generalizing p run with
  | nil =>
    have hvalue := foldl_pushDigit_param run hnone
    have hdispatched := foldl_pushDigit_dispatched (p := p) run
    obtain ⟨hstate', hparams, hbytes, hignore⟩ := foldl_pushDigit_frame (p := p) run
    rw [List.intercalate_singleton, List.append_assoc,
      advance_digits hstate (hdigits run List.mem_cons_self)]
    generalize run.foldl pushDigit p = q at hvalue hstate' hparams hbytes hignore hdispatched ⊢
    rw [advance_ending (.inl (hstate'.trans hstate)) hinter hfinal, hdispatched, hvalue, hparams,
      hbytes, hignore]
    rfl
  | cons next runs ih =>
    have hvalue := foldl_pushDigit_param run hnone
    have hdispatched := foldl_pushDigit_dispatched (p := p) run
    obtain ⟨hstate', hparams, hbytes, hignore⟩ := foldl_pushDigit_frame (p := p) run
    rw [List.intercalate_cons_cons, List.append_assoc, List.append_assoc, List.append_assoc,
      advance_digits hstate (hdigits run List.mem_cons_self)]
    generalize run.foldl pushDigit p = q at hvalue hstate' hparams hbytes hignore hdispatched ⊢
    have hrest := @ih q.pushParam next (hstate'.trans hstate) rfl
      fun r hr => hdigits r (List.mem_cons_of_mem run hr)
    rw [List.singleton_append, advance_semicolon (hstate'.trans hstate), ← List.append_assoc, hrest,
      ← hdispatched, pushParam, hvalue, hparams, hbytes, hignore]
    simp [dispatched]

end Parser

namespace CsiSequence

/-- Behind the marker. -/
def body (s : CsiSequence) : List UInt8 :=
  [0x3B].intercalate s.digits ++ s.intermediates ++ [s.final]

theorem isCsiByte_of_mem_body (s : CsiSequence) : ∀ byte ∈ s.body, Parser.IsCsiByte byte := by
  intro byte h
  rcases List.mem_append.mp h with h | h
  · rcases List.mem_append.mp h with h | h
    · rcases Joined.mem_intercalate h with h | ⟨run, hrun, h⟩
      · exact .inr (.inl h)
      · exact .inl (s.isDigit run hrun byte h)
    · exact .inr (.inr (.inl (s.intermediates_within byte h)))
  · rw [List.mem_singleton.mp h]
    exact .inr (.inr (.inr s.final_within))

theorem advance_marker (s : CsiSequence) {p : Parser} (hstate : p.state = .csiEntry)
    (hnone : p.currentParam = none) :
    p.advance (s.marker.toList ++ s.body) = Parser.advance { p with
      state := .csiParam
      intermediates := p.intermediates ++ s.marker.toList } s.body := by
  cases hmarker : s.marker with
  | none =>
    obtain ⟨byte, rest, hbody⟩ := List.exists_cons_of_ne_nil (l := s.body) (by simp [body])
    have hbyte : Parser.IsCsiByte byte := s.isCsiByte_of_mem_body byte (by simp [hbody])
    rw [hbody, Option.toList_none, List.nil_append, List.append_nil,
      Parser.advance_csiEntry hbyte hstate hnone]
  | some byte =>
    have hbyte : Parser.within 0x3C 0x3F byte = true := s.marker_within byte hmarker
    have hdigit : Parser.isDigit byte = false := Parser.not_within_of_within (by decide) hbyte
    have hsemicolon : byte ≠ 0x3B := Parser.ne_of_within_of_lt (by decide) hbyte
    have hcolon : byte ≠ 0x3A := Parser.ne_of_within_of_lt (by decide) hbyte
    have hstep : p.step byte =
        some ({ p.pushIntermediate byte with state := .csiParam }, []) := by
      rw [Parser.step_of_within (Parser.within_of_within (by decide) (by decide) hbyte),
        Parser.dispatch, hstate]
      simp only [Parser.csiEntry, hdigit, hsemicolon, hcolon, hbyte, Bool.false_eq_true, if_false,
        if_true]
    exact Parser.advance_cons_silent hstep

theorem advance_introducer {p : Parser} (h : p.state = .ground) (bytes : List UInt8) :
    p.advance (0x1B :: 0x5B :: bytes) =
      Parser.advance { p.clear with state := .csiEntry } bytes := by
  have hreads : p.readsEscape = false := by
    rw [Parser.readsEscape, h]
    rfl
  have hescape : p.step 0x1B = some ({ p.clear with state := .escape }, []) := by
    rw [Parser.step, hreads]
    rfl
  rw [Parser.advance_cons_silent hescape]
  exact Parser.advance_cons_silent rfl

/-- What becomes of a parser in the ground state that reads a control sequence. -/
theorem advance_bytes (s : CsiSequence) {p : Parser} (h : p.state = .ground) :
    p.advance s.bytes = some ({ p.clear with state := .ground }, [s.action]) := by
  obtain ⟨run, runs, hruns⟩ := List.exists_cons_of_ne_nil s.digits_ne_nil
  have hbytes : s.bytes = 0x1B :: 0x5B :: (s.marker.toList ++ s.body) := by
    simp [bytes, body]
  have hdigits : ∀ r ∈ run :: runs, ∀ byte ∈ r, Parser.isDigit byte = true := by
    rw [← hruns]
    exact s.isDigit
  have hbody := Parser.advance_body
    (p := { p.clear with state := .csiParam, intermediates := s.marker.toList }) rfl rfl hdigits
    s.intermediates_within s.final_within
  rw [hbytes, advance_introducer h, s.advance_marker rfl rfl, body, hruns]
  refine hbody.trans ?_
  rw [action, hruns]
  rfl

/-- Reading back a control sequence gives its parameters, marker, intermediate bytes and final
byte. -/
theorem decodes (s : CsiSequence) (p : Parser) (h : p.state = .ground) :
    ∃ q, p.advance s.bytes = some (q, [s.action]) ∧ q.state = .ground :=
  ⟨_, s.advance_bytes h, rfl⟩

/-- The cursor position request that ends in an empty parameter. -/
def cursorTo : CsiSequence where
  marker := none
  digits := [[0x31, 0x32], []]
  intermediates := []
  final := 0x48
  marker_within := by simp
  digits_ne_nil := by simp
  isDigit := by simp [Parser.isDigit, Parser.within]
  intermediates_within := by simp
  final_within := rfl

theorem decodes_cursorTo : ∃ q, Parser.new.advance cursorTo.bytes = some (q, [cursorTo.action]) ∧
    q.state = .ground :=
  decodes cursorTo Parser.new rfl

end CsiSequence

end RemoteDesktopTool
