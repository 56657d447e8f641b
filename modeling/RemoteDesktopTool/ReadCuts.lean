import RemoteDesktopTool.PrintSteps
import RemoteDesktopTool.TerminalSafety

namespace RemoteDesktopTool

open Checked

namespace Terminal

structure View where
  rows : List Row
  cursor : Cursor
  modes : Modes
  title : Text
  scrollback : Scrollback
deriving DecidableEq

def view (t : Terminal) : View := ⟨t.screen, t.cursor, t.modes, t.title, t.scrollback⟩

/-- The same view now and after every later sequence of calls. -/
def Agree (o o' : Option Terminal) : Prop :=
  ∀ later : List Op, (o >>= run call later).map view = (o' >>= run call later).map view

/-- Parsed from the parser's present state, the read dispatches a full reset. -/
def DispatchesReset (t : Terminal) (data : List UInt8) : Prop :=
  ∃ parser actions, t.parser.advance data = some (parser, actions) ∧
    actions.any Action.isFullReset = true

theorem dispatchesReset_of_parse {t : Terminal} {data : List UInt8} {parser : Parser}
    {actions : List Action} (hp : t.parser.advance data = some (parser, actions)) :
    t.DispatchesReset data ↔ actions.any Action.isFullReset = true := by
  constructor
  · rintro ⟨_, _, hp', hreset⟩
    cases Option.some.inj (hp.symm.trans hp')
    exact hreset
  · intro hreset
    exact ⟨parser, actions, hp, hreset⟩

/-- Without a full reset in the first read, the second one finds the parser where the
joint read would have it. -/
theorem advance_append_of_no_reset {t : Terminal} {a : List UInt8} (h : ¬t.DispatchesReset a)
    (b : List UInt8) : t.advance (a ++ b) = t.advance a >>= (·.advance b) := by
  simp only [advance_eq, Parser.advance_append]
  cases hp : t.parser.advance a with
  | none => rfl
  | some r =>
    obtain ⟨parser, actions⟩ := r
    have hany : actions.any Action.isFullReset = false := by
      simpa using mt (dispatchesReset_of_parse hp).mpr h
    cases hd : run Display.apply actions t.toDisplay with
    | none =>
      cases hb : parser.advance b with
      | none => simp [hd, hb]
      | some r' => simp [run_append, hd, hb]
    | some d =>
      have hkeep :
          (if actions.any Action.isFullReset = true then Parser.new else parser) = parser := by
        rw [hany]
        rfl
      simp only [Option.bind_some, Option.bind_eq_bind, hd, hkeep, Option.map_some, parser_ofParts,
        toDisplay_ofParts]
      cases hb : parser.advance b with
      | none => rfl
      | some r' =>
        simp only [Option.map_some, Option.bind_some, run_append, hd, Option.bind_eq_bind,
          List.any_append, hany, Bool.false_or]

/-- However the stream is cut, as long as it holds no full reset. -/
theorem run_reads_eq {t : Terminal} {reads : List (List UInt8)} {parser : Parser}
    {actions : List Action} (hp : t.parser.advance reads.flatten = some (parser, actions))
    (hreset : actions.any Action.isFullReset = false) :
    run (fun data t => t.advance data) reads t = t.advance reads.flatten := by
  induction reads generalizing t actions with
  | nil => rfl
  | cons a reads ih =>
    rw [List.flatten_cons, Parser.advance_append] at hp
    obtain ⟨⟨p₁, acts₁⟩, hp₁, hp⟩ := Option.bind_eq_some_iff.mp hp
    obtain ⟨⟨p₂, acts₂⟩, hp₂, heq⟩ := Option.map_eq_some_iff.mp hp
    cases heq
    obtain ⟨hreset₁, hreset₂⟩ := Bool.or_eq_false_iff.mp (List.any_append.symm.trans hreset)
    have hcut : ¬t.DispatchesReset a := by
      rw [dispatchesReset_of_parse hp₁, hreset₁]
      exact Bool.false_ne_true
    rw [run_cons, List.flatten_cons, advance_append_of_no_reset hcut]
    cases ht : t.advance a with
    | none => rfl
    | some t' =>
      rw [advance_eq, hp₁, Option.bind_some] at ht
      obtain ⟨d, _, hd⟩ := Option.map_eq_some_iff.mp ht
      simp only [hreset₁, Bool.false_eq_true, if_false] at hd
      have hparser : t'.parser = p₁ := by rw [← hd, parser_ofParts]
      exact ih (by rw [hparser]; exact hp₂) hreset₂

theorem fits_of_reset {actions : List Action} {d d' : Display}
    (h : actions.any Action.isFullReset = true) (hd : run Display.apply actions d = some d') :
    ∃ cols rows, d'.Fits cols rows := by
  obtain ⟨action, hmem, hreset⟩ := List.any_eq_true.mp h
  obtain ⟨before, after, rfl⟩ := List.append_of_mem hmem
  rw [run_append] at hd
  obtain ⟨s, _, hd⟩ := Option.bind_eq_some_iff.mp hd
  have hnew : Display.apply action s = some (Display.new s.cols s.rows) := by
    cases action with
    | esc intermediates ignore final =>
      simp only [Action.isFullReset, Bool.and_eq_true, Bool.not_eq_true',
        decide_eq_true_eq] at hreset
      simp [Display.apply, hreset.1, hreset.2]
    | _ => cases hreset
  have hfits := Ends.run (Display.new_fits s.cols s.rows)
    fun action (_ : action ∈ after) _ hd => hd.apply action
  rw [run_cons, hnew] at hd
  obtain ⟨d₁, hd₁, hfits⟩ := hfits
  cases Option.some.inj (hd.symm.trans hd₁)
  exact ⟨_, _, hfits⟩

/-- CAN, then the start of a control sequence. -/
def cutSequence : List UInt8 := [0x18, 0x1B, 0x5B]

def inSequence (p : Parser) : Parser := { p.clear with state := .csiEntry }

theorem advance_cutSequence (p : Parser) :
    p.advance cutSequence = some (inSequence p, [.execute 0x18]) := by
  rfl

/-- In a control sequence these bytes are swallowed; in the ground state they print a
character at the start of the line. -/
def probe (digit : UInt8) : List UInt8 := [0x3F, 0x0D, digit]

theorem advance_probe_inSequence (p : Parser) {digit : UInt8} (h : digit = 0x30 ∨ digit = 0x31) :
    ∃ q, (inSequence p).advance (probe digit) = some (q, []) := by
  rcases h with rfl | rfl <;> exact ⟨_, rfl⟩

theorem advance_probe_new {digit : UInt8} (h : digit = 0x30 ∨ digit = 0x31) :
    Parser.new.advance (probe digit) =
      some (Parser.new, [.print '?', .execute 0x0D, .print (Parser.byteChar digit)]) := by
  rcases h with rfl | rfl <;> rfl

theorem probe_prints {cols rows : Nat} {d : Display} (h : d.Fits cols rows) :
    ∃ (row : Nat) (attrs : Attrs), ∀ ch, isWide ch = false →
      Ends
        (fun d' : Display =>
          (d'.screen[row]?.bind fun r => r.cells[0]?) = some (Cell.new ch attrs))
        (run Display.apply [.print '?', .execute 0x0D, .print ch] d) := by
  obtain ⟨d₁, hd₁, h₁⟩ := h.print '?'
  have h₂ : Display.Fits cols rows { d₁.carriageReturn with dirty := true } :=
    h₁.carriageReturn.withDirty true
  refine ⟨d₁.cursor.row, d₁.cursor.attrs, ?_⟩
  intro ch hn
  obtain ⟨d', hd', hcell⟩ := h₂.print_at_start rfl rfl hn
  refine ⟨d', ?_, hcell⟩
  have hreturn : d₁.execute 0x0D = some { d₁.carriageReturn with dirty := true } := rfl
  simp [Display.apply, hd₁, hreturn, hd']

theorem view_after_probe {d : Display} {parser q : Parser} {digit : UInt8}
    {actions : List Action} (hq : parser.advance (probe digit) = some (q, actions)) :
    ((some (ofParts d parser) >>= run call [.advance (probe digit)]).map view).map View.rows =
      (run Display.apply actions d).map Display.screen := by
  have hadvance : run call [.advance (probe digit)] (ofParts d parser) =
      (ofParts d parser).advance (probe digit) := run_singleton call _ _
  simp only [Option.bind_eq_bind, Option.bind_some, hadvance, advance_eq, parser_ofParts, hq,
    toDisplay_ofParts, Option.map_map]
  rfl

/-- The probe tells a parser in a control sequence from a new one. -/
theorem not_agree_inSequence {cols rows : Nat} {d : Display} (h : d.Fits cols rows) :
    ¬ Agree (some (ofParts d Parser.new)) (some (ofParts d (inSequence Parser.new))) := by
  intro hagree
  have hunchanged : ∀ digit : UInt8, digit = 0x30 ∨ digit = 0x31 →
      (run Display.apply [.print '?', .execute 0x0D, .print (Parser.byteChar digit)] d).map
        Display.screen = some d.screen := by
    intro digit hdigit
    obtain ⟨q, hq⟩ := advance_probe_inSequence Parser.new hdigit
    have hviews := congrArg (Option.map View.rows) (hagree [.advance (probe digit)])
    rw [view_after_probe (advance_probe_new hdigit), view_after_probe hq] at hviews
    exact hviews
  obtain ⟨row, attrs, hprints⟩ := probe_prints h
  have hcell : ∀ digit : UInt8, digit = 0x30 ∨ digit = 0x31 →
      (d.screen[row]?.bind fun r => r.cells[0]?) =
        some (Cell.new (Parser.byteChar digit) attrs) := by
    intro digit hdigit
    have hnarrow : isWide (Parser.byteChar digit) = false := by
      rcases hdigit with rfl | rfl <;> rfl
    obtain ⟨d', hd', hcell⟩ := hprints (Parser.byteChar digit) hnarrow
    have hscreen := hunchanged digit hdigit
    rw [hd', Option.map_some] at hscreen
    rw [← Option.some.inj hscreen]
    exact hcell
  have hsame := (hcell 0x30 (.inl rfl)).symm.trans (hcell 0x31 (.inr rfl))
  have hch := congrArg Cell.ch (Option.some.inj hsame)
  have hne : Parser.byteChar 0x30 ≠ Parser.byteChar 0x31 := by decide
  exact hne hch

/-- After a read that dispatches a full reset, the cut in front of `cutSequence` shows. -/
theorem cut_disagrees {t x : Terminal} {a : List UInt8} (h : t.DispatchesReset a)
    (hx : t.advance a = some x) :
    ¬ Agree (t.advance (a ++ cutSequence)) (t.advance a >>= (·.advance cutSequence)) := by
  intro hagree
  obtain ⟨parser, actions, hp, hreset⟩ := h
  have hx' := hx
  rw [advance_eq, hp, Option.bind_some] at hx'
  obtain ⟨d, hd, hxd⟩ := Option.map_eq_some_iff.mp hx'
  simp only [hreset, if_true] at hxd
  obtain ⟨cols, rows, hfits⟩ := fits_of_reset hreset hd
  -- Both ways the display is the same; only the parser differs.
  have hcan : d.execute 0x18 = some { d with dirty := true } := rfl
  have hjoint : t.advance (a ++ cutSequence) =
      some (ofParts { d with dirty := true } Parser.new) := by
    rw [advance_eq, Parser.advance_append, hp]
    simp only [Option.bind_some, advance_cutSequence, Option.map_some, run_append, hd,
      Option.bind_eq_bind, List.any_append, hreset, Bool.true_or, if_true, run_cons, Display.apply,
      hcan, run_nil]
  have hsplit : t.advance a >>= (·.advance cutSequence) =
      some (ofParts { d with dirty := true } (inSequence Parser.new)) := by
    rw [hx, ← hxd]
    simp [advance_eq, advance_cutSequence, Display.apply, hcan, Action.isFullReset]
  rw [hjoint, hsplit] at hagree
  exact not_agree_inSequence (hfits.withDirty true) hagree

/-- A cut between two reads goes unnoticed, whatever follows it, exactly when the first
read dispatches no full reset (or fails in both cases). -/
theorem cut_agrees_iff (t : Terminal) (a : List UInt8) :
    (∀ b, Agree (t.advance (a ++ b)) (t.advance a >>= (·.advance b))) ↔
      t.advance a = none ∨ ¬t.DispatchesReset a := by
  constructor
  · intro hagree
    cases hx : t.advance a with
    | none => exact Or.inl rfl
    | some x =>
      refine Or.inr fun hreset => cut_disagrees hreset hx (hagree cutSequence)
  · rintro (hnone | hreset) b
    · by_cases hreset : t.DispatchesReset a
      · have hjoint : t.advance (a ++ b) = none := by
          obtain ⟨parser, actions, hp, _⟩ := hreset
          rw [advance_eq, hp, Option.bind_some, Option.map_eq_none_iff] at hnone
          rw [advance_eq, Parser.advance_append, hp, Option.bind_some]
          cases parser.advance b with
          | none => rfl
          | some r => simp [run_append, hnone]
        intro later
        rw [hjoint, hnone]
        rfl
      · intro later
        rw [advance_append_of_no_reset hreset]
    · intro later
      rw [advance_append_of_no_reset hreset]

/-- `ESC c ESC [` and `H`: the joint read homes the cursor, the cut one prints an `H`. -/
theorem cut_after_reset_prints :
    ¬ Agree ((new 2 1).advance ([0x1B, 0x63, 0x1B, 0x5B] ++ [0x48]))
      ((new 2 1).advance [0x1B, 0x63, 0x1B, 0x5B] >>= (·.advance [0x48])) := by
  intro hagree
  have hview := congrArg (Option.map fun v : View => v.rows) (hagree [])
  revert hview
  decide +kernel

end Terminal

end RemoteDesktopTool
