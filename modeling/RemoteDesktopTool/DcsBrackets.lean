import RemoteDesktopTool.Brackets
import RemoteDesktopTool.CsiSequences

namespace RemoteDesktopTool

open Brackets Checked

/-- What an action is to the brackets of device control strings. -/
def Action.mark : Action → Mark
  | .dcsStart _ _ _ => .opens
  | .dcsData _ => .inside
  | .dcsEnd => .closes
  | .print _ | .execute _ | .csi _ _ _ _ | .esc _ _ _ | .osc _ _ => .outside

namespace Parser

variable {p q : Parser} {byte : UInt8} {out : List Action}

/-- The start of a device control string has been emitted, its end has not. -/
def inString (p : Parser) : Bool :=
  p.state = .dcsPassthrough && p.pendingDcsStart = none

theorem inString_of_state (h : p.state ≠ .dcsPassthrough) : p.inString = false := by
  rw [inString, decide_eq_false h]
  rfl

/-- Nothing of a device control string is emitted, and none is left open. -/
def Outside (r : Parser × List Action) : Prop :=
  r.1.inString = false ∧ ∀ action ∈ r.2, action.mark = .outside

theorem outside_silent (h : p.inString = false) : Outside (p, []) :=
  ⟨h, fun _ hmem => absurd hmem List.not_mem_nil⟩

theorem outside_single {action : Action} (h : p.inString = false)
    (haction : action.mark = .outside) : Outside (p, [action]) := by
  refine ⟨h, fun other hmem => ?_⟩
  rw [List.mem_singleton.mp hmem]
  exact haction

theorem escDispatch_outside : Outside (p.escDispatch byte) := outside_single rfl rfl

theorem csiDispatch_outside : Outside (p.csiDispatch byte) := outside_single rfl rfl

theorem escape_outside : Outside (p.escape byte) := by
  unfold escape
  repeat' split
  all_goals first | exact outside_silent rfl | exact escDispatch_outside

section

variable (h : p.state ≠ .dcsPassthrough)

include h

theorem escapeIntermediate_outside : Outside (p.escapeIntermediate byte) := by
  have hkeep := inString_of_state h
  unfold escapeIntermediate
  repeat' split
  all_goals first
    | exact escDispatch_outside
    | exact outside_silent hkeep
    | exact outside_silent rfl

theorem csiEntry_outside : Outside (p.csiEntry byte) := by
  have hkeep := inString_of_state h
  unfold csiEntry
  repeat' split
  all_goals first
    | exact csiDispatch_outside
    | exact outside_silent hkeep
    | exact outside_silent rfl

theorem csiParam_outside : Outside (p.csiParam byte) := by
  have hkeep := inString_of_state h
  unfold csiParam
  repeat' split
  all_goals first
    | exact csiDispatch_outside
    | exact outside_silent hkeep
    | exact outside_silent rfl

theorem csiIntermediate_outside : Outside (p.csiIntermediate byte) := by
  have hkeep := inString_of_state h
  unfold csiIntermediate
  repeat' split
  all_goals first
    | exact csiDispatch_outside
    | exact outside_silent hkeep
    | exact outside_silent rfl

theorem csiIgnore_outside : Outside (p.csiIgnore byte) := by
  unfold csiIgnore
  split
  next => exact outside_single rfl rfl
  next => exact outside_silent (inString_of_state h)

theorem dcsEntry_outside : (p.dcsEntry byte).inString = false := by
  have hkeep := inString_of_state h
  unfold dcsEntry
  repeat' split
  all_goals first | exact hkeep | rfl

theorem dcsParam_outside : (p.dcsParam byte).inString = false := by
  have hkeep := inString_of_state h
  unfold dcsParam
  repeat' split
  all_goals first | exact hkeep | rfl

theorem dcsIntermediate_outside : (p.dcsIntermediate byte).inString = false := by
  have hkeep := inString_of_state h
  unfold dcsIntermediate
  repeat' split
  all_goals first | exact hkeep | rfl

theorem oscString_outside : Outside (p.oscString byte) := by
  have hkeep := inString_of_state h
  unfold oscString
  repeat' split
  all_goals first
    | exact outside_single rfl rfl
    | exact outside_silent hkeep

theorem sosPmApc_outside : (p.sosPmApc byte).inString = false := by
  unfold sosPmApc
  split
  next => rfl
  next => exact inString_of_state h

theorem utf8Lead_outside {r : Parser × List Action} (hr : p.utf8Lead byte = some r) :
    Outside r := by
  have hkeep := inString_of_state h
  unfold utf8Lead at hr
  split at hr
  next =>
    cases Option.some.inj hr
    exact outside_single hkeep rfl
  next =>
    obtain ⟨buffer, -, hr⟩ := Option.bind_eq_some_iff.mp hr
    cases Option.some.inj hr
    exact outside_silent hkeep

theorem groundChar_outside {r : Parser × List Action} (hr : p.groundChar byte = some r) :
    Outside r := by
  have hkeep := inString_of_state h
  unfold groundChar at hr
  split at hr
  next =>
    cases Option.some.inj hr
    exact outside_single hkeep rfl
  next =>
    split at hr
    next =>
      cases Option.some.inj hr
      exact outside_single hkeep rfl
    next => exact utf8Lead_outside h hr

theorem utf8_outside {r : Parser × List Action} (hr : p.utf8 byte = some r) : Outside r := by
  have hkeep := inString_of_state h
  unfold utf8 at hr
  split at hr
  next => exact utf8Lead_outside h hr
  next =>
    split at hr
    next =>
      obtain ⟨⟨q, out⟩, hground, hr⟩ := Option.bind_eq_some_iff.mp hr
      cases Option.some.inj hr
      obtain ⟨hopen, hout⟩ := groundChar_outside (p := { p with utf8Len := 0, utf8Expected := 0 })
        h hground
      exact ⟨hopen, List.forall_mem_cons.mpr ⟨rfl, hout⟩⟩
    next =>
      obtain ⟨buffer, -, hr⟩ := Option.bind_eq_some_iff.mp hr
      dsimp only at hr
      split at hr
      next =>
        cases Option.some.inj hr
        exact outside_single hkeep rfl
      next =>
        cases Option.some.inj hr
        exact outside_silent hkeep

theorem ground_outside {r : Parser × List Action} (hr : p.ground byte = some r) : Outside r := by
  have hkeep := inString_of_state h
  unfold ground at hr
  split at hr
  next => exact utf8_outside h hr
  next =>
    split at hr
    next =>
      cases Option.some.inj hr
      exact outside_single hkeep rfl
    next =>
      split at hr
      next =>
        cases Option.some.inj hr
        exact outside_single hkeep rfl
      next => exact utf8_outside h hr

end

/-- The actions continue the brackets, and the parser knows whether one is left open. -/
def Brackets (isOpen : Bool) (r : Parser × List Action) : Prop :=
  Bracketed Action.mark isOpen r.2 ∧ behind Action.mark isOpen r.2 = r.1.inString

theorem Outside.brackets {r : Parser × List Action} (h : Outside r) : Brackets false r := by
  obtain ⟨hbracketed, hbehind⟩ := bracketed_of_outside h.2
  exact ⟨hbracketed, hbehind.trans h.1.symm⟩

theorem dcsFinish_brackets (p : Parser) :
    Bracketed Action.mark true p.dcsFinish.2 ∧ behind Action.mark true p.dcsFinish.2 = false := by
  unfold dcsFinish
  split
  next => exact ⟨bracketed_cons.mpr ⟨rfl, bracketed_nil⟩, rfl⟩
  next => exact ⟨bracketed_cons.mpr ⟨rfl, bracketed_cons.mpr ⟨rfl, bracketed_nil⟩⟩, rfl⟩

/-- The lazy start is emitted in front of what an open string emits for the byte. -/
theorem dcsPassthrough_pending {params : List Nat} {intermediates : List UInt8} {action : UInt8}
    (h : p.pendingDcsStart = some (params, intermediates, action)) :
    p.dcsPassthrough byte =
      (({ p with pendingDcsStart := none } : Parser).dcsPassthrough byte).map id
        (.dcsStart params intermediates action :: ·) := by
  unfold dcsPassthrough
  simp only [h]
  repeat' split
  all_goals rfl

theorem dcsPassthrough_open (hstate : p.state = .dcsPassthrough) (h : p.pendingDcsStart = none) :
    Brackets true (p.dcsPassthrough byte) := by
  obtain ⟨hbracketed, hbehind⟩ := dcsFinish_brackets { p with pendingDcsStart := none }
  have hopen : inString { p with pendingDcsStart := none } = true := by
    rw [inString, decide_eq_true hstate]
    rfl
  unfold dcsPassthrough
  simp only [h, List.nil_append]
  split
  next => exact ⟨bracketed_nil, hopen.symm⟩
  next =>
    split
    next => exact ⟨bracketed_nil, hopen.symm⟩
    next =>
      split
      next => exact ⟨hbracketed, hbehind⟩
      next => exact ⟨hbracketed, hbehind⟩

theorem dcsPassthrough_brackets (hstate : p.state = .dcsPassthrough) :
    Brackets p.inString (p.dcsPassthrough byte) := by
  rw [inString, decide_eq_true hstate, Bool.true_and]
  cases h : p.pendingDcsStart with
  | none => exact dcsPassthrough_open hstate h
  | some start =>
    obtain ⟨params, intermediates, action⟩ := start
    have hopen : Brackets true
        (({ p with pendingDcsStart := none } : Parser).dcsPassthrough byte) :=
      dcsPassthrough_open hstate rfl
    rw [dcsPassthrough_pending h]
    exact ⟨bracketed_cons.mpr ⟨rfl, hopen.1⟩, hopen.2⟩

theorem dispatch_outside {r : Parser × List Action} (hstate : p.state ≠ .dcsPassthrough)
    (h : p.dispatch byte = some r) : Outside r := by
  unfold dispatch at h
  split at h
  next => exact ground_outside hstate h
  next => cases Option.some.inj h; exact escape_outside
  next => cases Option.some.inj h; exact escapeIntermediate_outside hstate
  next => cases Option.some.inj h; exact csiEntry_outside hstate
  next => cases Option.some.inj h; exact csiParam_outside hstate
  next => cases Option.some.inj h; exact csiIntermediate_outside hstate
  next => cases Option.some.inj h; exact csiIgnore_outside hstate
  next => cases Option.some.inj h; exact outside_silent (dcsEntry_outside hstate)
  next => cases Option.some.inj h; exact outside_silent (dcsParam_outside hstate)
  next => cases Option.some.inj h; exact outside_silent (dcsIntermediate_outside hstate)
  next heq => exact absurd heq hstate
  next => cases Option.some.inj h; exact outside_silent (inString_of_state hstate)
  next => cases Option.some.inj h; exact oscString_outside hstate
  next => cases Option.some.inj h; exact outside_silent (sosPmApc_outside hstate)

theorem dispatch_brackets {r : Parser × List Action} (h : p.dispatch byte = some r) :
    Brackets p.inString r := by
  by_cases hstate : p.state = .dcsPassthrough
  · rw [dispatch, hstate] at h
    rw [← Option.some.inj h]
    exact dcsPassthrough_brackets hstate
  · rw [inString_of_state hstate]
    exact (dispatch_outside hstate h).brackets

/-- CAN or SUB arrives while a device control string is open. -/
def BreaksOff (p : Parser) (byte : UInt8) : Prop :=
  p.inString = true ∧ (byte = 0x18 ∨ byte = 0x1A)

theorem step_brackets {r : Parser × List Action} (h : p.step byte = some r)
    (hkeeps : ¬p.BreaksOff byte) : Brackets p.inString r := by
  by_cases habort : byte = 0x18 ∨ byte = 0x1A
  · have hopen : p.inString = false :=
      Bool.eq_false_iff.mpr fun hopen => hkeeps ⟨hopen, habort⟩
    rw [step_cancel p habort] at h
    cases Option.some.inj h
    rw [hopen]
    exact (outside_single rfl rfl).brackets
  · have habort' : (byte = 0x18 || byte = 0x1A) = false := by simpa using habort
    rw [step, habort'] at h
    by_cases hescape : (byte = 0x1B && !p.readsEscape) = true
    · have hstate : p.state ≠ .dcsPassthrough := by
        intro hstate
        simp [readsEscape, hstate] at hescape
      rw [if_neg Bool.false_ne_true, if_pos hescape] at h
      cases Option.some.inj h
      rw [inString_of_state hstate]
      exact (outside_silent rfl).brackets
    · rw [if_neg Bool.false_ne_true, if_neg hescape] at h
      exact dispatch_brackets h

/-- The abort is executed inside the string. -/
theorem step_breaksOff {r : Parser × List Action} (h : p.step byte = some r)
    (hbreaks : p.BreaksOff byte) : ¬Bracketed Action.mark p.inString r.2 := by
  obtain ⟨hopen, habort⟩ := hbreaks
  rw [step_cancel p habort] at h
  cases Option.some.inj h
  rw [hopen, bracketed_cons]
  rintro ⟨hfits, -⟩
  exact Bool.noConfusion hfits

/-- No byte breaks off a device control string when its turn comes. -/
def Unbroken (p : Parser) (bytes : List UInt8) : Prop :=
  ∀ before byte after, bytes = before ++ byte :: after →
    ∀ q out, p.advance before = some (q, out) → ¬q.BreaksOff byte

theorem unbroken_cons {bytes : List UInt8} (h : p.step byte = some (q, out)) :
    p.Unbroken (byte :: bytes) ↔ ¬p.BreaksOff byte ∧ q.Unbroken bytes := by
  constructor
  · intro hall
    refine ⟨hall [] byte bytes rfl p [] rfl, fun before b after hbytes q' out' hbefore => ?_⟩
    refine hall (byte :: before) b after (by rw [hbytes, List.cons_append]) q' (out ++ out') ?_
    rw [advance_cons_step h, hbefore]
    rfl
  · rintro ⟨hfirst, hrest⟩ before b after hbytes q' out' hbefore
    cases before with
    | nil =>
      obtain ⟨rfl, -⟩ := List.cons.inj hbytes
      cases Option.some.inj hbefore
      exact hfirst
    | cons b' before =>
      obtain ⟨rfl, rfl⟩ := List.cons.inj hbytes
      rw [advance_cons_step h] at hbefore
      obtain ⟨⟨q'', out''⟩, hreached, heq⟩ := Option.map_eq_some_iff.mp hbefore
      obtain ⟨rfl, -⟩ := Prod.mk.inj heq
      exact hrest before b after rfl q'' out'' hreached

theorem advance_bracketed_iff {bytes : List UInt8} (h : p.advance bytes = some (q, out)) :
    Bracketed Action.mark p.inString out ↔ p.Unbroken bytes := by
  induction bytes generalizing p out with
  | nil =>
    cases Option.some.inj h
    refine ⟨fun _ before byte after hnil => ?_, fun _ => bracketed_nil⟩
    simp at hnil
  | cons byte bytes ih =>
    obtain ⟨⟨q₁, out₁⟩, hstep, -⟩ := Option.bind_eq_some_iff.mp h
    rw [advance_cons_step hstep] at h
    obtain ⟨⟨q₂, out₂⟩, hrest, heq⟩ := Option.map_eq_some_iff.mp h
    obtain ⟨rfl, rfl⟩ := Prod.mk.inj heq
    rw [unbroken_cons hstep, bracketed_append]
    by_cases hbreaks : p.BreaksOff byte
    · exact ⟨fun hout => absurd hout.1 (step_breaksOff hstep hbreaks),
        fun hok => absurd hbreaks hok.1⟩
    · obtain ⟨hfirst, hbehind⟩ := step_brackets hstep hbreaks
      rw [hbehind, ih hrest]
      exact ⟨fun hout => ⟨hbreaks, hout.2⟩, fun hok => ⟨hfirst, hok.2⟩⟩

/-- `advance` on one chunk after the other. -/
def feed (p : Parser) : List (List UInt8) → Option (Parser × List Action)
  | [] => some (p, [])
  | chunk :: chunks => do
    let (p, out) ← p.advance chunk
    let (p, rest) ← p.feed chunks
    some (p, out ++ rest)

theorem feed_eq (p : Parser) (chunks : List (List UInt8)) :
    p.feed chunks = p.advance chunks.flatten := by
  induction chunks generalizing p with
  | nil => rfl
  | cons chunk chunks ih =>
    rw [List.flatten_cons, advance_append, feed]
    cases p.advance chunk with
    | none => rfl
    | some r =>
      simp only [Option.bind_eq_bind, Option.bind_some, ih]
      cases r.1.advance chunks.flatten <;> rfl

/-- Device control strings are bracketed except where an abort breaks one off. -/
theorem strings_bracketed_iff (chunks : List (List UInt8)) :
    Ends (fun r => Bracketed Action.mark false r.2 ↔ new.Unbroken chunks.flatten)
      (new.feed chunks) := by
  obtain ⟨⟨q, out⟩, hrun, -⟩ := new_utf8Bounded.advance chunks.flatten
  rw [feed_eq, hrun]
  exact Ends.some (advance_bracketed_iff hrun)

/-- `ESC P q x`, CAN and `ESC P q y` start two strings and end none. -/
theorem cancelled_string_has_no_end :
    ¬ ∀ chunks : List (List UInt8), Ends (fun r => Bracketed Action.mark false r.2)
      (new.feed chunks) := by
  intro hall
  obtain ⟨r, hrun, hbracketed⟩ :=
    hall [[0x1B, 0x50, 0x71, 0x78, 0x18, 0x1B, 0x50, 0x71, 0x79]]
  have hout : (new.feed [[0x1B, 0x50, 0x71, 0x78, 0x18, 0x1B, 0x50, 0x71, 0x79]]).map Prod.snd =
      some [.dcsStart [0] [] 0x71, .execute 0x18, .dcsStart [0] [] 0x71] := by decide
  rw [hrun] at hout
  have hfits := hbracketed [.dcsStart [0] [] 0x71, .execute 0x18] (.dcsStart [0] [] 0x71) []
    (Option.some.inj hout)
  exact Bool.noConfusion hfits

end Parser

end RemoteDesktopTool
