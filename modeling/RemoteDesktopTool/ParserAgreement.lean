import Mathlib.Tactic.SplitIfs
import RemoteDesktopTool.ParserUtf8

namespace RemoteDesktopTool

open Checked

namespace Parser

/-- The parsers agree on all that is still read in the state they are in. -/
structure Agrees (p q : Parser) : Prop where
  state : q.state = p.state
  size : q.utf8Buffer.length = p.utf8Buffer.length
  utf8Len : q.utf8Len = p.utf8Len
  pending : 0 < p.utf8Len → q.utf8Expected = p.utf8Expected ∧
    q.utf8Buffer.take p.utf8Len = p.utf8Buffer.take p.utf8Len
  complete : p.state ≠ .ground → p.utf8Len = 0
  sequence : p.state ≠ .ground → q.params = p.params ∧ q.currentParam = p.currentParam ∧
    q.intermediates = p.intermediates ∧ q.ignore = p.ignore
  osc : p.state = .oscString → q.oscBuffer = p.oscBuffer
  dcs : p.state = .dcsPassthrough →
    q.dcsBuffer = p.dcsBuffer ∧ q.pendingDcsStart = p.pendingDcsStart

def SameStep (r s : Parser × List Action) : Prop := Agrees r.1 s.1 ∧ s.2 = r.2

/-- The fields that outlive a sequence without being cleared. -/
structure Stale where
  oscBuffer : Text
  dcsBuffer : List UInt8
  utf8Buffer : List UInt8
  utf8Expected : Nat
  pendingDcsStart : Option (List Nat × List UInt8 × UInt8)

def withStale (p : Parser) (s : Stale) : Parser :=
  { p with
    oscBuffer := s.oscBuffer
    dcsBuffer := s.dcsBuffer
    utf8Buffer := s.utf8Buffer
    utf8Expected := s.utf8Expected
    pendingDcsStart := s.pendingDcsStart }

def stale (p : Parser) : Stale :=
  ⟨p.oscBuffer, p.dcsBuffer, p.utf8Buffer, p.utf8Expected, p.pendingDcsStart⟩

def readsStale (p : Parser) : Bool := p.state = .oscString || p.state = .dcsPassthrough

variable {p q : Parser} {s : Stale} {byte : UInt8}

theorem Agrees.eq_withStale (h : Agrees p q) (hs : p.state ≠ .ground) :
    q = p.withStale q.stale := by
  obtain ⟨hparams, hcurrent, hintermediates, hignore⟩ := h.sequence hs
  have hstate := h.state
  have hlen := h.utf8Len
  cases p
  cases q
  cases hparams
  cases hcurrent
  cases hintermediates
  cases hignore
  cases hstate
  cases hlen
  rfl

theorem agrees_withStale (s : Stale) (hsize : s.utf8Buffer.length = p.utf8Buffer.length)
    (hlen : p.utf8Len = 0) (hreads : p.readsStale = false) : Agrees p (p.withStale s) where
  state := rfl
  size := hsize
  utf8Len := rfl
  pending hpos := absurd hlen (Nat.ne_of_gt hpos)
  complete _ := hlen
  sequence _ := ⟨rfl, rfl, rfl, rfl⟩
  osc h := by
    rw [readsStale, h] at hreads
    cases hreads
  dcs h := by
    rw [readsStale, h] at hreads
    cases hreads

theorem same_withStale (s : Stale) {out : List Action}
    (hsize : s.utf8Buffer.length = p.utf8Buffer.length) (hlen : p.utf8Len = 0)
    (hreads : p.readsStale = false) : SameStep (p, out) (p.withStale s, out) :=
  ⟨agrees_withStale s hsize hlen hreads, rfl⟩

section Collecting

variable (hsize : s.utf8Buffer.length = p.utf8Buffer.length) (hlen : p.utf8Len = 0)
include hsize hlen

theorem escDispatch_same : SameStep (p.escDispatch byte) ((p.withStale s).escDispatch byte) :=
  same_withStale s hsize hlen rfl

theorem csiDispatch_same : SameStep (p.csiDispatch byte) ((p.withStale s).csiDispatch byte) :=
  same_withStale s hsize hlen rfl

/-- The start of a device control string overwrites what an earlier one left. -/
theorem dcsDispatchStart_agrees :
    Agrees (p.dcsDispatchStart byte) ((p.withStale s).dcsDispatchStart byte) :=
  ⟨rfl, hsize, rfl, fun hpos => absurd hlen (Nat.ne_of_gt hpos), fun _ => hlen,
    fun _ => ⟨rfl, rfl, rfl, rfl⟩, nofun, fun _ => ⟨rfl, rfl⟩⟩

theorem escape_same : SameStep (p.escape byte) ((p.withStale s).escape byte) := by
  unfold escape
  generalize byteChar byte = c
  split
  next => exact same_withStale s hsize hlen rfl
  next =>
    exact ⟨⟨rfl, hsize, rfl, fun hpos => absurd hlen (Nat.ne_of_gt hpos), fun _ => hlen,
      fun _ => ⟨rfl, rfl, rfl, rfl⟩, fun _ => rfl, nofun⟩, rfl⟩
  next => exact same_withStale s hsize hlen rfl
  next => exact same_withStale s hsize hlen rfl
  next => exact same_withStale s hsize hlen rfl
  next => exact same_withStale s hsize hlen rfl
  next => exact same_withStale s hsize hlen rfl
  next =>
    split_ifs
    · exact same_withStale s hsize hlen rfl
    · exact escDispatch_same hsize hlen
    · exact same_withStale s hsize hlen rfl

theorem escapeIntermediate_same (hreads : p.readsStale = false) :
    SameStep (p.escapeIntermediate byte) ((p.withStale s).escapeIntermediate byte) := by
  unfold escapeIntermediate
  split_ifs
  · exact same_withStale s hsize hlen hreads
  · exact escDispatch_same hsize hlen
  · exact same_withStale s hsize hlen rfl

theorem csiEntry_same (hreads : p.readsStale = false) :
    SameStep (p.csiEntry byte) ((p.withStale s).csiEntry byte) := by
  unfold csiEntry
  split_ifs
  · exact same_withStale s hsize hlen rfl
  · exact same_withStale s hsize hlen rfl
  · exact same_withStale s hsize hlen rfl
  · exact same_withStale s hsize hlen rfl
  · exact same_withStale s hsize hlen rfl
  · exact csiDispatch_same hsize hlen
  · exact same_withStale s hsize hlen hreads

theorem csiParam_same (hreads : p.readsStale = false) :
    SameStep (p.csiParam byte) ((p.withStale s).csiParam byte) := by
  unfold csiParam
  split_ifs
  · exact same_withStale s hsize hlen hreads
  · exact same_withStale s hsize hlen hreads
  · exact same_withStale s hsize hlen rfl
  · exact same_withStale s hsize hlen rfl
  · exact csiDispatch_same hsize hlen
  · exact same_withStale s hsize hlen rfl
  · exact same_withStale s hsize hlen hreads

theorem csiIntermediate_same (hreads : p.readsStale = false) :
    SameStep (p.csiIntermediate byte) ((p.withStale s).csiIntermediate byte) := by
  unfold csiIntermediate
  split_ifs
  · exact same_withStale s hsize hlen hreads
  · exact same_withStale s hsize hlen rfl
  · exact csiDispatch_same hsize hlen
  · exact same_withStale s hsize hlen hreads

theorem csiIgnore_same (hreads : p.readsStale = false) :
    SameStep (p.csiIgnore byte) ((p.withStale s).csiIgnore byte) := by
  unfold csiIgnore
  split_ifs
  · exact same_withStale s hsize hlen rfl
  · exact same_withStale s hsize hlen hreads

theorem dcsEntry_agrees (hreads : p.readsStale = false) :
    Agrees (p.dcsEntry byte) ((p.withStale s).dcsEntry byte) := by
  unfold dcsEntry
  split_ifs
  · exact agrees_withStale s hsize hlen rfl
  · exact agrees_withStale s hsize hlen rfl
  · exact agrees_withStale s hsize hlen rfl
  · exact agrees_withStale s hsize hlen rfl
  · exact dcsDispatchStart_agrees hsize hlen
  · exact agrees_withStale s hsize hlen hreads

theorem dcsParam_agrees (hreads : p.readsStale = false) :
    Agrees (p.dcsParam byte) ((p.withStale s).dcsParam byte) := by
  unfold dcsParam
  split_ifs
  · exact agrees_withStale s hsize hlen hreads
  · exact agrees_withStale s hsize hlen hreads
  · exact agrees_withStale s hsize hlen rfl
  · exact agrees_withStale s hsize hlen rfl
  · exact dcsDispatchStart_agrees hsize hlen
  · exact agrees_withStale s hsize hlen hreads

theorem dcsIntermediate_agrees (hreads : p.readsStale = false) :
    Agrees (p.dcsIntermediate byte) ((p.withStale s).dcsIntermediate byte) := by
  unfold dcsIntermediate
  split_ifs
  · exact agrees_withStale s hsize hlen hreads
  · exact agrees_withStale s hsize hlen rfl
  · exact dcsDispatchStart_agrees hsize hlen
  · exact agrees_withStale s hsize hlen hreads

theorem sosPmApc_agrees (hreads : p.readsStale = false) :
    Agrees (p.sosPmApc byte) ((p.withStale s).sosPmApc byte) := by
  unfold sosPmApc
  split_ifs
  · exact agrees_withStale s hsize hlen rfl
  · exact agrees_withStale s hsize hlen hreads

end Collecting

theorem dcsPassthrough_same (h : Agrees p q) (hs : p.state = .dcsPassthrough) :
    SameStep (p.dcsPassthrough byte) (q.dcsPassthrough byte) := by
  have hground : p.state ≠ .ground := by rw [hs]; nofun
  have hlen := h.complete hground
  obtain ⟨hdata, hpending⟩ := h.dcs hs
  have hkept : ∀ data, Agrees { p with pendingDcsStart := none, dcsBuffer := data }
      { q with pendingDcsStart := none, dcsBuffer := data } := fun _ =>
    { h with
      osc := fun hosc => absurd (hs.symm.trans hosc) nofun
      dcs := fun _ => ⟨rfl, rfl⟩ }
  have hleft : ∀ data, Agrees
      { p with pendingDcsStart := none, dcsBuffer := data, state := .ground }
      { q with pendingDcsStart := none, dcsBuffer := data, state := .ground } := fun _ =>
    ⟨rfl, h.size, h.utf8Len, h.pending, nofun, nofun, nofun, nofun⟩
  have hescape : ∀ data,
      Agrees { clear { p with pendingDcsStart := none, dcsBuffer := data } with state := .escape }
        { clear { q with pendingDcsStart := none, dcsBuffer := data } with state := .escape } :=
    fun _ => ⟨rfl, h.size, rfl, nofun, fun _ => rfl, fun _ => ⟨rfl, rfl, rfl, rfl⟩, nofun, nofun⟩
  unfold dcsPassthrough dcsFinish
  rw [hpending, hdata]
  dsimp only
  split_ifs
  · exact ⟨hkept _, rfl⟩
  · exact ⟨hkept _, rfl⟩
  · exact ⟨hescape _, rfl⟩
  · exact ⟨hescape _, rfl⟩
  · exact ⟨hleft _, rfl⟩
  · exact ⟨hleft _, rfl⟩

theorem oscString_same (h : Agrees p q) (hs : p.state = .oscString) :
    SameStep (p.oscString byte) (q.oscString byte) := by
  have hosc := h.osc hs
  have hground : p.state ≠ .ground := by rw [hs]; nofun
  have hkept : ∀ buffer, Agrees { p with oscBuffer := buffer } { q with oscBuffer := buffer } :=
    fun _ =>
      { h with
        osc := fun _ => rfl
        dcs := fun hdcs => absurd (hs.symm.trans hdcs) nofun }
  unfold oscString
  rw [hosc]
  split_ifs
  · exact ⟨⟨rfl, h.size, h.utf8Len, h.pending, nofun, nofun, nofun, nofun⟩, rfl⟩
  · exact ⟨⟨rfl, h.size, h.utf8Len, h.pending, fun _ => h.complete hground,
      fun _ => h.sequence hground, nofun, nofun⟩, rfl⟩
  · exact ⟨hkept _, rfl⟩
  · exact ⟨h, rfl⟩

theorem agrees_ground (hp : p.state = .ground) (hq : q.state = .ground)
    (hsize : q.utf8Buffer.length = p.utf8Buffer.length) (hlen : q.utf8Len = p.utf8Len)
    (hpending : 0 < p.utf8Len → q.utf8Expected = p.utf8Expected ∧
      q.utf8Buffer.take p.utf8Len = p.utf8Buffer.take p.utf8Len) : Agrees p q where
  state := hq.trans hp.symm
  size := hsize
  utf8Len := hlen
  pending := hpending
  complete hs := absurd hp hs
  sequence hs := absurd hp hs
  osc hs := absurd (hp.symm.trans hs) nofun
  dcs hs := absurd (hp.symm.trans hs) nofun

theorem take_set {l : List UInt8} {i : Nat} (x : UInt8) (h : i < l.length) :
    (l.set i x).take (i + 1) = l.take i ++ [x] := by
  have hget : (l.set i x)[i]? = some x := List.getElem?_set_self h
  rw [List.take_add_one, hget, List.take_set_of_le (Nat.le_refl i)]
  rfl

/-- Both buffers take the byte, or neither does. -/
theorem setAt_cases {l l' : List UInt8} (hlen : l'.length = l.length) (i : Nat) (x : UInt8) :
    (setAt l i x = none ∧ setAt l' i x = none) ∨
      (setAt l i x = some (l.set i x) ∧ setAt l' i x = some (l'.set i x) ∧
        (l.set i x).take (i + 1) = l.take i ++ [x] ∧
        (l'.set i x).take (i + 1) = l'.take i ++ [x]) := by
  by_cases h : i < l.length
  · have h' : i < l'.length := by omega
    exact Or.inr ⟨setAt_of_lt x h, setAt_of_lt x h', take_set x h, take_set x h'⟩
  · have h' : ¬i < l'.length := by omega
    exact Or.inl ⟨if_neg h, if_neg h'⟩

theorem utf8Lead_same (h : Agrees p q) (hs : p.state = .ground) :
    Option.Rel SameStep (p.utf8Lead byte) (q.utf8Lead byte) := by
  have hq := h.state.trans hs
  unfold utf8Lead
  cases utf8LeadLength byte with
  | none => exact .some ⟨h, rfl⟩
  | some expected =>
    rcases setAt_cases h.size 0 byte with ⟨hp, hq'⟩ | ⟨hp, hq', htake, htake'⟩
    · simp only [hp, hq']
      exact .none
    · simp only [hp, hq', Option.bind_eq_bind, Option.bind_some]
      refine .some ⟨agrees_ground hs hq ?_ rfl fun _ => ⟨rfl, ?_⟩, rfl⟩
      · simpa using h.size
      · exact htake'.trans htake.symm

theorem groundChar_same (h : Agrees p q) (hs : p.state = .ground) :
    Option.Rel SameStep (p.groundChar byte) (q.groundChar byte) := by
  unfold groundChar
  split_ifs
  · exact .some ⟨h, rfl⟩
  · exact .some ⟨h, rfl⟩
  · exact utf8Lead_same h hs

theorem utf8_same (h : Agrees p q) (hs : p.state = .ground) :
    Option.Rel SameStep (p.utf8 byte) (q.utf8 byte) := by
  have hq := h.state.trans hs
  unfold utf8
  rw [h.utf8Len]
  split_ifs with hzero hcontinues
  · exact utf8Lead_same h hs
  · -- The sequence is dropped, and the byte read again.
    have hdropped : Agrees { p with utf8Len := 0, utf8Expected := 0 }
        { q with utf8Len := 0, utf8Expected := 0 } :=
      agrees_ground hs hq h.size rfl nofun
    have hread : Option.Rel SameStep (groundChar { p with utf8Len := 0, utf8Expected := 0 } byte)
        (groundChar { q with utf8Len := 0, utf8Expected := 0 } byte) :=
      groundChar_same hdropped hs
    generalize groundChar { p with utf8Len := 0, utf8Expected := 0 } byte = r at hread ⊢
    generalize groundChar { q with utf8Len := 0, utf8Expected := 0 } byte = r' at hread ⊢
    cases hread with
    | none => exact .none
    | some hsame => exact .some ⟨hsame.1, congrArg (.print replacementCharacter :: ·) hsame.2⟩
  · obtain ⟨hexpected, htaken⟩ := h.pending (Nat.pos_of_ne_zero hzero)
    rcases setAt_cases h.size p.utf8Len byte with ⟨hp, hq'⟩ | ⟨hp, hq', htake, htake'⟩
    · simp only [hp, hq']
      exact .none
    · have hlen : (q.utf8Buffer.set p.utf8Len byte).length =
          (p.utf8Buffer.set p.utf8Len byte).length := by simpa using h.size
      have hbytes : (q.utf8Buffer.set p.utf8Len byte).take (p.utf8Len + 1) =
          (p.utf8Buffer.set p.utf8Len byte).take (p.utf8Len + 1) := by
        rw [htake, htake', htaken]
      simp only [hp, hq', Option.bind_eq_bind, Option.bind_some, hexpected, hbytes]
      split_ifs
      · exact .some ⟨agrees_ground hs hq hlen rfl nofun, rfl⟩
      · exact .some ⟨agrees_ground hs hq hlen rfl fun _ => ⟨rfl, hbytes⟩, rfl⟩

theorem ground_same (h : Agrees p q) (hs : p.state = .ground) :
    Option.Rel SameStep (p.ground byte) (q.ground byte) := by
  unfold ground
  rw [h.utf8Len]
  split_ifs
  · exact utf8_same h hs
  · exact .some ⟨h, rfl⟩
  · exact .some ⟨h, rfl⟩
  · exact utf8_same h hs

theorem Agrees.dispatch (h : Agrees p q) (byte : UInt8) :
    Option.Rel SameStep (p.dispatch byte) (q.dispatch byte) := by
  by_cases hground : p.state = .ground
  · have hq := h.state.trans hground
    simp only [Parser.dispatch, hground, hq]
    exact ground_same h hground
  have hlen := h.complete hground
  by_cases hosc : p.state = .oscString
  · have hq := h.state.trans hosc
    simp only [Parser.dispatch, hosc, hq]
    exact .some (oscString_same h hosc)
  by_cases hdcs : p.state = .dcsPassthrough
  · have hq := h.state.trans hdcs
    simp only [Parser.dispatch, hdcs, hq]
    exact .some (dcsPassthrough_same h hdcs)
  have hreads : p.readsStale = false := by simp [readsStale, hosc, hdcs]
  have hsize : q.stale.utf8Buffer.length = p.utf8Buffer.length := h.size
  rw [h.eq_withStale hground]
  generalize q.stale = s at hsize ⊢
  have hsame : (p.withStale s).state = p.state := rfl
  unfold Parser.dispatch
  rw [hsame]
  cases hstate : p.state with
  | ground => exact absurd hstate hground
  | escape => exact .some (escape_same hsize hlen)
  | escapeIntermediate => exact .some (escapeIntermediate_same hsize hlen hreads)
  | csiEntry => exact .some (csiEntry_same hsize hlen hreads)
  | csiParam => exact .some (csiParam_same hsize hlen hreads)
  | csiIntermediate => exact .some (csiIntermediate_same hsize hlen hreads)
  | csiIgnore => exact .some (csiIgnore_same hsize hlen hreads)
  | dcsEntry => exact .some ⟨dcsEntry_agrees hsize hlen hreads, rfl⟩
  | dcsParam => exact .some ⟨dcsParam_agrees hsize hlen hreads, rfl⟩
  | dcsIntermediate => exact .some ⟨dcsIntermediate_agrees hsize hlen hreads, rfl⟩
  | dcsPassthrough => exact absurd hstate hdcs
  | dcsIgnore => exact .some ⟨agrees_withStale s hsize hlen hreads, rfl⟩
  | oscString => exact absurd hstate hosc
  | sosPmApcString => exact .some ⟨sosPmApc_agrees hsize hlen hreads, rfl⟩

theorem Agrees.step (h : Agrees p q) (byte : UInt8) :
    Option.Rel SameStep (p.step byte) (q.step byte) := by
  have hreads : q.readsEscape = p.readsEscape := by rw [readsEscape, h.state]; rfl
  have hcleared : Agrees { p.clear with state := .ground } { q.clear with state := .ground } :=
    agrees_ground rfl rfl h.size rfl nofun
  have hescape : Agrees { p.clear with state := .escape } { q.clear with state := .escape } :=
    ⟨rfl, h.size, rfl, nofun, fun _ => rfl, fun _ => ⟨rfl, rfl, rfl, rfl⟩, nofun, nofun⟩
  unfold Parser.step
  rw [hreads]
  split_ifs
  · exact .some ⟨hcleared, rfl⟩
  · exact .some ⟨hescape, rfl⟩
  · exact h.dispatch byte

theorem Agrees.advance (h : Agrees p q) (bytes : List UInt8) :
    Option.Rel SameStep (p.advance bytes) (q.advance bytes) := by
  induction bytes generalizing p q with
  | nil => exact .some ⟨h, rfl⟩
  | cons byte bytes ih =>
    unfold Parser.advance
    have hstep := h.step byte
    generalize p.step byte = r at hstep ⊢
    generalize q.step byte = r' at hstep ⊢
    cases hstep with
    | none => exact .none
    | @some r r' hsame =>
      have hrest := ih hsame.1
      simp only [Option.bind_eq_bind, Option.bind_some]
      generalize r.1.advance bytes = t at hrest ⊢
      generalize r'.1.advance bytes = t' at hrest ⊢
      cases hrest with
      | none => exact .none
      | @some t t' hrest =>
        refine .some ⟨hrest.1, ?_⟩
        show r'.2 ++ t'.2 = r.2 ++ t.2
        rw [hsame.2, hrest.2]

/-- What the parser emits for the bytes. -/
def actions (p : Parser) (bytes : List UInt8) : Option (List Action) :=
  (p.advance bytes).map Prod.snd

theorem Agrees.actions (h : Agrees p q) (bytes : List UInt8) :
    q.actions bytes = p.actions bytes := by
  have hadvance := h.advance bytes
  unfold Parser.actions
  generalize p.advance bytes = r at hadvance ⊢
  generalize q.advance bytes = r' at hadvance ⊢
  cases hadvance with
  | none => rfl
  | some hsame => exact congrArg some hsame.2

/-- Between two sequences. -/
def Idle (p : Parser) : Prop := p.state = .ground ∧ p.utf8Len = 0

theorem Idle.agrees (h : p.Idle) (hp : p.Utf8Bounded) : Agrees new p :=
  agrees_ground rfl h.1 (hp.buffer.trans new_utf8Bounded.buffer.symm) h.2 nofun

theorem step_cancel (p : Parser) (h : byte = 0x18 ∨ byte = 0x1A) :
    p.step byte = some ({ p.clear with state := .ground }, [.execute byte]) := by
  rcases h with rfl | rfl <;> rfl

/-- Whatever was read before, an idle parser emits what a new one does, and a cancelled one is
idle. -/
theorem idle_is_new (bytes : List UInt8) :
    Ends (fun r : Parser × List Action =>
      (r.1.Idle → ∀ later, r.1.actions later = new.actions later) ∧
      ∀ byte, byte = 0x18 ∨ byte = 0x1A → Ends (fun cancelled : Parser × List Action =>
        cancelled.1.Idle ∧ ∀ later, cancelled.1.actions later = new.actions later)
          (r.1.step byte)) (new.advance bytes) := by
  refine (new_utf8Bounded.advance bytes).mono fun r hr => ⟨?_, fun byte hbyte => ?_⟩
  · exact fun hidle => (hidle.agrees hr).actions
  · have hidle : ({ r.1.clear with state := .ground } : Parser).Idle := ⟨rfl, rfl⟩
    rw [step_cancel r.1 hbyte]
    exact Ends.some ⟨hidle, (hidle.agrees (hr.keeps ⟨rfl, Or.inr rfl⟩)).actions⟩

end Parser

end RemoteDesktopTool
