import RemoteDesktopTool.ParserAgreement

namespace RemoteDesktopTool

open Checked

/-- What follows ESC at the start of a control string. -/
inductive StringOpener
  | osc
  | dcs
  | sos
  | pm
  | apc
deriving DecidableEq, Repr

def StringOpener.byte : StringOpener → UInt8
  | .osc => 0x5D
  | .dcs => 0x50
  | .sos => 0x58
  | .pm => 0x5E
  | .apc => 0x5F

structure ControlString where
  opener : StringOpener
  payload : List UInt8
  printable : ∀ byte ∈ payload, Parser.within 0x20 0x7E byte = true

namespace ControlString

/-- The string with its terminator, `ESC \`. -/
def bytes (s : ControlString) : List UInt8 :=
  [0x1B, s.opener.byte] ++ s.payload ++ [0x1B, 0x5C]

/-- Behind the string, the parser emits what a new one does. -/
def Terminated (s : ControlString) : Prop :=
  ∀ later, Parser.new.actions (s.bytes ++ later) = do
    let own ← Parser.new.actions s.bytes
    let rest ← Parser.new.actions later
    some (own ++ rest)

end ControlString

namespace Parser

variable {p : Parser} {byte : UInt8}

theorem advance_append_ends {P Q : Parser → Prop} {front back : List UInt8}
    (hfront : Ends (fun r : Parser × List Action => P r.1) (p.advance front))
    (hback : ∀ q, P q → Ends (fun r : Parser × List Action => Q r.1) (q.advance back)) :
    Ends (fun r : Parser × List Action => Q r.1) (p.advance (front ++ back)) := by
  obtain ⟨r, hr, hp⟩ := hfront
  obtain ⟨r', hr', hq⟩ := hback r.1 hp
  rw [advance_append, hr, Option.bind_some, hr', Option.map_some]
  exact Ends.some hq

/-- In the midst of a device control string, whatever became of its header. -/
def InDcs (p : Parser) : Prop :=
  p.utf8Len = 0 ∧ (p.state = .dcsEntry ∨ p.state = .dcsParam ∨ p.state = .dcsIntermediate ∨
    p.state = .dcsPassthrough ∨ p.state = .dcsIgnore)

def InOsc (p : Parser) : Prop := p.utf8Len = 0 ∧ p.state = .oscString

def InSosPmApc (p : Parser) : Prop := p.state = .sosPmApcString

theorem ne_of_within (h : within 0x20 0x7E byte = true) :
    byte ≠ 0x07 ∧ byte ≠ 0x18 ∧ byte ≠ 0x1A ∧ byte ≠ 0x1B := by
  refine ⟨?_, ?_, ?_, ?_⟩
  all_goals
    rintro rfl
    cases h

theorem step_of_within (h : within 0x20 0x7E byte = true) (p : Parser) :
    p.step byte = p.dispatch byte := by
  obtain ⟨_, hcan, hsub, hesc⟩ := ne_of_within h
  simp only [step, hcan, hsub, hesc, decide_false, Bool.or_self, Bool.false_and,
    Bool.false_eq_true, if_false]

theorem dcsDispatchStart_inDcs (h : p.utf8Len = 0) : (p.dcsDispatchStart byte).InDcs :=
  ⟨h, Or.inr (Or.inr (Or.inr (Or.inl rfl)))⟩

theorem dcsEntry_inDcs (h : p.InDcs) : (p.dcsEntry byte).InDcs := by
  have hlen := h.1
  unfold dcsEntry
  split_ifs
  · exact ⟨hlen, Or.inr (Or.inl rfl)⟩
  · exact ⟨hlen, Or.inr (Or.inl rfl)⟩
  · exact ⟨hlen, Or.inr (Or.inl rfl)⟩
  · exact ⟨hlen, Or.inr (Or.inr (Or.inl rfl))⟩
  · exact dcsDispatchStart_inDcs hlen
  · exact h

theorem dcsParam_inDcs (h : p.InDcs) : (p.dcsParam byte).InDcs := by
  have hlen := h.1
  unfold dcsParam
  split_ifs
  · exact ⟨hlen, h.2⟩
  · exact ⟨hlen, h.2⟩
  · exact ⟨hlen, Or.inr (Or.inr (Or.inr (Or.inr rfl)))⟩
  · exact ⟨hlen, Or.inr (Or.inr (Or.inl rfl))⟩
  · exact dcsDispatchStart_inDcs hlen
  · exact ⟨hlen, h.2⟩

theorem dcsIntermediate_inDcs (h : p.InDcs) : (p.dcsIntermediate byte).InDcs := by
  have hlen := h.1
  unfold dcsIntermediate
  split_ifs
  · exact ⟨hlen, h.2⟩
  · exact ⟨hlen, Or.inr (Or.inr (Or.inr (Or.inr rfl)))⟩
  · exact dcsDispatchStart_inDcs hlen
  · exact ⟨hlen, h.2⟩

theorem dcsPassthrough_inDcs (h : p.InDcs) (hbyte : within 0x20 0x7E byte = true) :
    (p.dcsPassthrough byte).1.InDcs := by
  have hdata : (within 0x00 0x17 byte || byte = 0x19 || within 0x1C 0x7E byte) = true := by
    simp only [within, Bool.and_eq_true, decide_eq_true_eq, Bool.or_eq_true] at hbyte ⊢
    exact Or.inr ⟨UInt8.le_trans (by decide) hbyte.1, hbyte.2⟩
  rw [dcsPassthrough, if_pos hdata]
  exact h

theorem InDcs.step (h : p.InDcs) (hbyte : within 0x20 0x7E byte = true) :
    Ends (fun r : Parser × List Action => InDcs r.1 ∧ ∀ action ∈ r.2, True) (p.step byte) := by
  rw [step_of_within hbyte, dispatch]
  rcases h.2 with hs | hs | hs | hs | hs
  all_goals rw [hs]
  · exact Ends.some ⟨dcsEntry_inDcs h, fun _ _ => trivial⟩
  · exact Ends.some ⟨dcsParam_inDcs h, fun _ _ => trivial⟩
  · exact Ends.some ⟨dcsIntermediate_inDcs h, fun _ _ => trivial⟩
  · exact Ends.some ⟨dcsPassthrough_inDcs h hbyte, fun _ _ => trivial⟩
  · exact Ends.some ⟨h, fun _ _ => trivial⟩

theorem InOsc.step (h : p.InOsc) (hbyte : within 0x20 0x7E byte = true) :
    Ends (fun r : Parser × List Action => InOsc r.1 ∧ ∀ action ∈ r.2, True) (p.step byte) := by
  obtain ⟨hbell, _, _, hesc⟩ := ne_of_within hbyte
  rw [step_of_within hbyte, dispatch, h.2]
  refine Ends.some ⟨?_, fun _ _ => trivial⟩
  rw [oscString, if_neg hbell, if_neg hesc]
  split_ifs
  · exact h
  · exact h

def AtEscape (p : Parser) : Prop := p.utf8Len = 0 ∧ p.state = .escape

theorem InDcs.escape (h : p.InDcs) :
    Ends (fun r : Parser × List Action => AtEscape r.1) (p.step 0x1B) := by
  by_cases hs : p.state = .dcsPassthrough
  · have hreads : p.readsEscape = true := by simp [readsEscape, hs]
    have hstep : p.step 0x1B = some (p.dcsPassthrough 0x1B) := by
      simp [Parser.step, hreads, dispatch, hs]
    rw [hstep]
    exact Ends.some ⟨rfl, rfl⟩
  · have hreads : p.readsEscape = false := by
      rcases h.2 with hs' | hs' | hs' | hs' | hs'
      · simp [readsEscape, hs']
      · simp [readsEscape, hs']
      · simp [readsEscape, hs']
      · exact absurd hs' hs
      · simp [readsEscape, hs']
    have hstep : p.step 0x1B = some ({ p.clear with state := .escape }, []) := by
      simp [Parser.step, hreads]
    rw [hstep]
    exact Ends.some ⟨rfl, rfl⟩

theorem InOsc.escape (h : p.InOsc) :
    Ends (fun r : Parser × List Action => AtEscape r.1) (p.step 0x1B) := by
  have hreads : p.readsEscape = true := by simp [readsEscape, h.2]
  have hstep : p.step 0x1B = some (p.oscString 0x1B) := by
    simp [Parser.step, hreads, dispatch, h.2]
  rw [hstep]
  exact Ends.some ⟨h.1, rfl⟩

/-- `ESC \` is the string terminator: nothing is dispatched. -/
theorem AtEscape.terminator (h : p.AtEscape) :
    Ends (fun r : Parser × List Action => Idle r.1) (p.step 0x5C) := by
  have hstep : p.step 0x5C = some (p.escape 0x5C) := by
    simp [Parser.step, dispatch, h.2]
  rw [hstep]
  exact Ends.some ⟨rfl, h.1⟩

/-- SOS, PM and APC strings are not left for anything but BEL, CAN and SUB. -/
theorem InSosPmApc.step (h : p.InSosPmApc) (hbell : byte ≠ 0x07) (hcan : byte ≠ 0x18)
    (hsub : byte ≠ 0x1A) :
    Ends (fun r : Parser × List Action => InSosPmApc r.1 ∧ ∀ action ∈ r.2, False)
      (p.step byte) := by
  have hs : p.state = .sosPmApcString := h
  have hreads : p.readsEscape = true := by simp [readsEscape, hs]
  have hstep : p.step byte = some (p.sosPmApc byte, []) := by
    simp [Parser.step, hcan, hsub, hreads, dispatch, hs]
  have hkept : p.sosPmApc byte = p := if_neg hbell
  rw [hstep, hkept]
  exact Ends.some ⟨h, fun _ hmem => absurd hmem List.not_mem_nil⟩

theorem advance_cons_ends {P Q : Parser → Prop} {bytes : List UInt8}
    (hstep : Ends (fun r : Parser × List Action => P r.1) (p.step byte))
    (hrest : ∀ q, P q → Ends (fun r : Parser × List Action => Q r.1) (q.advance bytes)) :
    Ends (fun r : Parser × List Action => Q r.1) (p.advance (byte :: bytes)) := by
  refine Ends.bind hstep ?_
  rintro ⟨q, out⟩ hq
  refine Ends.bind (hrest q hq) ?_
  rintro ⟨q', rest⟩ hq'
  exact Ends.some hq'

theorem actions_append (p : Parser) (front back : List UInt8) :
    p.actions (front ++ back) = (p.advance front).bind fun r =>
      (r.1.actions back).map fun rest => r.2 ++ rest := by
  unfold actions
  rw [advance_append]
  cases p.advance front with
  | none => rfl
  | some r =>
    simp only [Option.bind_some, Option.map_map]
    rfl

end Parser

namespace ControlString

variable {s : ControlString}

theorem opened (opener : StringOpener) :
    ∃ p, Parser.new.advance [0x1B, opener.byte] = some (p, []) ∧
      (opener = .osc → p.InOsc) ∧ (opener = .dcs → p.InDcs) ∧
      (opener ≠ .osc → opener ≠ .dcs → p.InSosPmApc) := by
  cases opener with
  | osc => exact ⟨_, rfl, fun _ => ⟨rfl, rfl⟩, nofun, fun h => absurd rfl h⟩
  | dcs => exact ⟨_, rfl, nofun, fun _ => ⟨rfl, Or.inl rfl⟩, fun _ h => absurd rfl h⟩
  | sos => exact ⟨_, rfl, nofun, nofun, fun _ _ => rfl⟩
  | pm => exact ⟨_, rfl, nofun, nofun, fun _ _ => rfl⟩
  | apc => exact ⟨_, rfl, nofun, nofun, fun _ _ => rfl⟩

/-- A string that ESC leaves is over behind its terminator. -/
theorem idle_of_left {P : Parser → Prop}
    (hopened : Ends (fun r : Parser × List Action => P r.1)
      (Parser.new.advance [0x1B, s.opener.byte]))
    (hstep : ∀ byte p, P p → Parser.within 0x20 0x7E byte = true →
      Ends (fun r : Parser × List Action => P r.1 ∧ ∀ action ∈ r.2, True) (p.step byte))
    (hleft : ∀ p, P p → Ends (fun r : Parser × List Action => r.1.AtEscape) (p.step 0x1B)) :
    Ends (fun r : Parser × List Action => r.1.Idle) (Parser.new.advance s.bytes) := by
  have hpayload : ∀ p, P p → Ends (fun r : Parser × List Action => P r.1)
      (p.advance s.payload) := fun p hp =>
    (Parser.advance_ends (fun byte hbyte q hq => hstep byte q hq (s.printable byte hbyte)) hp).mono
      fun _ h => h.1
  have hclosed : ∀ p : Parser, p.AtEscape → Ends (fun r : Parser × List Action => r.1.Idle)
      (p.advance [0x5C]) := fun p hp =>
    Parser.advance_cons_ends hp.terminator fun q hq => Ends.some hq
  refine Parser.advance_append_ends (Parser.advance_append_ends hopened hpayload) fun p hp => ?_
  exact Parser.advance_cons_ends (hleft p hp) hclosed

theorem idle_of_osc_dcs (h : s.opener = .osc ∨ s.opener = .dcs) :
    Ends (fun r : Parser × List Action => r.1.Idle) (Parser.new.advance s.bytes) := by
  obtain ⟨p, hp, hosc, hdcs, _⟩ := opened s.opener
  rcases h with h | h
  · refine idle_of_left (P := Parser.InOsc) ?_ (fun _ _ hq hbyte => hq.step hbyte)
      fun _ hq => hq.escape
    rw [hp]
    exact Ends.some (hosc h)
  · refine idle_of_left (P := Parser.InDcs) ?_ (fun _ _ hq hbyte => hq.step hbyte)
      fun _ hq => hq.escape
    rw [hp]
    exact Ends.some (hdcs h)

theorem terminated_of_idle
    (h : Ends (fun r : Parser × List Action => r.1.Idle) (Parser.new.advance s.bytes)) :
    s.Terminated := by
  intro later
  obtain ⟨r, hr, hidle⟩ := h
  have hbounded : r.1.Utf8Bounded :=
    (hr ▸ Parser.new_utf8Bounded.advance s.bytes).of_some
  have hown : Parser.new.actions s.bytes = some r.2 := by rw [Parser.actions, hr]; rfl
  rw [Parser.actions_append, hr, Option.bind_some, (hidle.agrees hbounded).actions, hown]
  cases Parser.new.actions later <;> rfl

/-- From an SOS, PM or APC string nothing is emitted any more. -/
theorem swallows (hosc : s.opener ≠ .osc) (hdcs : s.opener ≠ .dcs) (later : List UInt8)
    (hlater : ∀ byte ∈ later, byte ≠ 0x07 ∧ byte ≠ 0x18 ∧ byte ≠ 0x1A) :
    Parser.new.actions (s.bytes ++ later) = some [] := by
  obtain ⟨p, hp, _, _, hsos⟩ := opened s.opener
  have hend : ∀ byte ∈ ([0x1B, 0x5C] : List UInt8), byte ≠ 0x07 ∧ byte ≠ 0x18 ∧ byte ≠ 0x1A := by
    simp
  have hbytes : ∀ byte ∈ s.payload ++ [0x1B, 0x5C] ++ later,
      byte ≠ 0x07 ∧ byte ≠ 0x18 ∧ byte ≠ 0x1A := by
    intro byte hbyte
    rcases List.mem_append.mp hbyte with hbyte | hbyte
    · rcases List.mem_append.mp hbyte with hbyte | hbyte
      · obtain ⟨hbell, hcan, hsub, _⟩ := Parser.ne_of_within (s.printable byte hbyte)
        exact ⟨hbell, hcan, hsub⟩
      · exact hend byte hbyte
    · exact hlater byte hbyte
  obtain ⟨r, hr, _, hnone⟩ := Parser.advance_ends (Q := fun _ => False)
    (fun byte hbyte q (hq : q.InSosPmApc) =>
      hq.step (hbytes byte hbyte).1 (hbytes byte hbyte).2.1 (hbytes byte hbyte).2.2)
    (hsos hosc hdcs)
  have hsplit : s.bytes ++ later =
      [0x1B, s.opener.byte] ++ (s.payload ++ [0x1B, 0x5C] ++ later) := by
    simp only [bytes, List.append_assoc]
  have hempty : r.2 = [] := List.eq_nil_iff_forall_not_mem.mpr hnone
  rw [hsplit, Parser.actions_append, hp, Option.bind_some, Parser.actions, hr]
  simp [hempty]

/-- A control string ends at its terminator exactly if it is an OSC or a DCS string. -/
theorem terminated_iff (s : ControlString) :
    s.Terminated ↔ s.opener = .osc ∨ s.opener = .dcs := by
  constructor
  · intro h
    by_contra hother
    obtain ⟨hosc, hdcs⟩ := not_or.mp hother
    have hown : Parser.new.actions s.bytes = some [] := by
      have hswallowed := swallows hosc hdcs [] nofun
      rwa [List.append_nil] at hswallowed
    have hprinted := h [0x41]
    rw [swallows hosc hdcs [0x41] (by simp), hown] at hprinted
    cases hprinted
  · exact fun h => terminated_of_idle (idle_of_osc_dcs h)

def sosString : ControlString := ⟨.sos, [], nofun⟩

/-- The text behind `ESC X ESC \` is never printed. -/
theorem sos_swallows_the_session : ¬ ∀ s : ControlString, s.Terminated := by
  intro h
  have hprinted := h sosString [0x41]
  cases hprinted

end ControlString

end RemoteDesktopTool
