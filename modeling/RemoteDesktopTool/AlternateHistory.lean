import RemoteDesktopTool.AlternateScreen

namespace RemoteDesktopTool

open Checked

namespace Scrollback

theorem foldl_push (limit : Nat) (pushed rows : List Row) :
    rows.foldl push ⟨limit, newest limit pushed⟩ = ⟨limit, newest limit (pushed ++ rows)⟩ := by
  induction rows generalizing pushed with
  | nil => rw [List.append_nil, List.foldl_nil]
  | cons row rows ih =>
    rw [List.foldl_cons, push_newest, ih, List.append_assoc]
    rfl

/-- Pushing leaves a bounded history alone if it is full and ends in these rows already. -/
theorem foldl_push_lines_iff {back : Scrollback} (hbound : back.lines.length ≤ back.limit)
    (rows : List Row) :
    (rows.foldl push back).lines = back.lines ↔
      rows = [] ∨ back.lines.length = back.limit ∧ back.lines <:+ back.lines ++ rows := by
  have hback : back = ⟨back.limit, newest back.limit back.lines⟩ := by
    unfold newest
    rw [Nat.sub_eq_zero_of_le hbound, List.drop_zero]
  have hpushed : (rows.foldl push back).lines = newest back.limit (back.lines ++ rows) :=
    congrArg lines ((congrArg (rows.foldl push) hback).trans (foldl_push _ _ _))
  rw [hpushed, List.suffix_iff_eq_drop]
  unfold newest
  constructor
  · intro hsame
    cases rows with
    | nil => exact Or.inl rfl
    | cons row rows =>
      have hlength := congrArg List.length hsame
      simp only [List.length_drop, List.length_append, List.length_cons] at hlength
      have hfull : back.lines.length = back.limit := by omega
      rw [hfull]
      exact Or.inr ⟨rfl, hsame.symm⟩
  · rintro (rfl | ⟨hfull, hends⟩)
    · rw [List.append_nil, Nat.sub_eq_zero_of_le hbound, List.drop_zero]
    · rw [← hfull]
      exact hends.symm

end Scrollback

namespace Terminal

variable {t t' s s' : Terminal} {event : Event} {events : List Event}

/-- What a step on the alternate screen must respect: it saves the cursor only where it is
saved already, erases the history only when that is empty, and scrolls no row out of the
screen, unless the history is full and ends in the same rows. -/
structure Quiet (s : Terminal) (event : Event) : Prop where
  saves : event.savesCursor = true → s.savedCursor = some s.cursor
  erases : event.erasesHistory = true → s.scrollback.lines = []
  scrolls : event.erasesHistory = false → s.scrolledAway (s.scrollsBy event) = [] ∨
    s.scrollback.lines.length = s.scrollback.limit ∧
      s.scrollback.lines <:+ s.scrollback.lines ++ s.scrolledAway (s.scrollsBy event)

theorem quiet_iff (hbounded : s.Bounded) :
    s.Quiet event ↔ s.savedAfter event = s.savedCursor ∧
      (s.scrollbackAfter event).lines = s.scrollback.lines := by
  have hsaved : s.savedAfter event = s.savedCursor ↔
      (event.savesCursor = true → s.savedCursor = some s.cursor) := by
    unfold savedAfter
    split
    next hsaves => exact ⟨fun hsame _ => hsame.symm, fun hsame => (hsame hsaves).symm⟩
    next hsaves => exact ⟨fun _ h => absurd h hsaves, fun _ => rfl⟩
  have hback := Scrollback.foldl_push_lines_iff hbounded.history
    (s.scrolledAway (s.scrollsBy event))
  constructor
  · intro h
    refine ⟨hsaved.mpr h.saves, ?_⟩
    unfold scrollbackAfter
    split
    next herases => exact (h.erases herases).symm
    next herases => exact hback.mpr (h.scrolls (Bool.eq_false_iff.mpr herases))
  · rintro ⟨hcursor, hlines⟩
    refine ⟨hsaved.mp hcursor, fun herases => ?_, fun herases => ?_⟩
    · rw [scrollbackAfter, if_pos herases] at hlines
      exact hlines.symm
    · rw [scrollbackAfter, if_neg (Bool.eq_false_iff.mp herases)] at hlines
      exact hback.mp hlines

/-- What the run of a full-screen program cannot do: forget the screen behind, or have no
cursor saved. -/
structure Visiting (t s : Terminal) : Prop where
  behind : Behind t s
  framed : s.Framed
  bounded : s.Bounded
  savedCursor : s.savedCursor.isSome

theorem Visiting.handle (h : Visiting t s) (hinside : event.staysInside = true)
    (hstep : handle event s = some s') : Visiting t s' := by
  have hchanges := handle_changes hinside hstep
  refine ⟨h.behind.handle hinside hstep, hchanges.framed h.framed, hchanges.bounded h.bounded, ?_⟩
  rw [hchanges.savedCursor, savedAfter]
  split
  next => rfl
  next => exact h.savedCursor

theorem Visiting.run (h : Visiting t s) (hinside : ∀ event ∈ events, event.staysInside = true)
    (hrun : run Terminal.handle events s = some s') : Visiting t s' :=
  run_invariant (fun event hevent _ _ hv hstep => hv.handle (hinside event hevent) hstep) h hrun

/-- A visit with the history and the saved cursor of `t`. -/
structure Undisturbed (t s : Terminal) : Prop where
  visiting : Visiting t s
  savedCursor : s.savedCursor = some t.cursor
  lines : s.scrollback.lines = t.scrollback.lines

theorem undisturbed_step_iff (hinside : event.staysInside = true) (h : Undisturbed t s)
    (hstep : handle event s = some s') : Undisturbed t s' ↔ s.Quiet event := by
  have hchanges := handle_changes hinside hstep
  have hback := hchanges.scrollback h.visiting.framed
  rw [quiet_iff h.visiting.bounded]
  constructor
  · intro h'
    refine ⟨?_, ?_⟩
    · rw [← hchanges.savedCursor, h'.savedCursor, h.savedCursor]
    · rw [← hback, h'.lines, h.lines]
  · rintro ⟨hcursor, hlines⟩
    refine ⟨h.visiting.handle hinside hstep, ?_, ?_⟩
    · rw [hchanges.savedCursor, hcursor, h.savedCursor]
    · rw [hback, hlines, h.lines]

theorem entered_undisturbed (hbounded : t.Bounded) (hoff : t.modes.alternateScreen = false)
    (henter : handle enter t = some s) : Undisturbed t s := by
  obtain ⟨hbehind, hsaved, hback, hframed⟩ := entered hoff henter
  obtain ⟨hframed, hbounded⟩ := hframed hbounded
  have hsome : s.savedCursor.isSome := by
    rw [hsaved]
    rfl
  exact ⟨⟨hbehind, hframed, hbounded, hsome⟩, hsaved, congrArg Scrollback.lines hback⟩

/-- The history and the cursor come back from a visit if it ends undisturbed. -/
theorem comes_back_iff (h : Visiting t s) (hleave : handle leave s = some t') :
    t'.scrollback.lines = t.scrollback.lines ∧ t'.cursor = t.cursor ↔ Undisturbed t s := by
  obtain ⟨t₁, hleave₁, _, hcursor, hback, _⟩ := left h.behind
  cases Option.some.inj (hleave.symm.trans hleave₁)
  obtain ⟨cursor, hsaved⟩ := Option.isSome_iff_exists.mp h.savedCursor
  rw [hsaved, Option.getD_some] at hcursor
  rw [hcursor, hback]
  constructor
  · rintro ⟨hlines, rfl⟩
    exact ⟨h, hsaved, hlines⟩
  · intro hquiet
    exact ⟨hquiet.lines, Option.some.inj (hsaved.symm.trans hquiet.savedCursor)⟩

/-- The history and the cursor survive every visit of the alternate screen, however early it
ends, exactly when all steps taken there are quiet. -/
theorem kept_iff_quiet (hreachable : t.Reachable) (hoff : t.modes.alternateScreen = false)
    (hinside : ∀ event ∈ events, event.staysInside = true) :
    (∀ before, before <+: events → ∀ t', run handle (visit before) t = some t' →
        t'.scrollback.lines = t.scrollback.lines ∧ t'.cursor = t.cursor) ↔
      ∀ before event, before ++ [event] <+: events →
        ∀ s s', run handle (enter :: before) t = some s → handle event s = some s' →
          s.Quiet event := by
  have hstart := handle_enter t
  generalize ofParts (t.setPrivateMode 1049 true) t.parser = s₀ at hstart
  have hquiet := entered_undisturbed hreachable.bounded hoff hstart
  have hruns : ∀ before, run handle (enter :: before) t = run handle before s₀ := by
    intro before
    rw [run_cons, hstart]
    rfl
  have hvisit : ∀ before s, run handle before s₀ = some s →
      run handle (visit before) t = handle leave s := by
    intro before s hrun
    rw [visit, run_concat, hruns, hrun]
    rfl
  have hwithin : ∀ before, before <+: events → ∀ event ∈ before, event.staysInside = true :=
    fun before hbefore event hevent => hinside event (hbefore.subset hevent)
  have hkept := run_kept_iff (P := Undisturbed t) (fun event hevent s s' hs hstep =>
    undisturbed_step_iff (hinside event hevent) hs hstep) hquiet
  constructor
  · intro hback before event hbefore s s' hrun hstep
    rw [hruns] at hrun
    refine hkept.mp (fun pre hpre s hrun => ?_) before event hbefore s s' hrun hstep
    have hvisiting := hquiet.visiting.run (hwithin pre hpre) hrun
    obtain ⟨t', hleave, _⟩ := left hvisiting.behind
    exact (comes_back_iff hvisiting hleave).mp
      (hback pre hpre t' ((hvisit pre s hrun).trans hleave))
  · intro hquiets before hbefore t' hrun
    obtain ⟨s, hrun₀, hleave⟩ : ∃ s, run handle before s₀ = some s ∧ handle leave s = some t' := by
      rw [visit, run_concat, hruns] at hrun
      exact Option.bind_eq_some_iff.mp hrun
    have hundisturbed := hkept.mpr (fun pre event hpre s s' hrun hstep =>
      hquiets pre event hpre s s' ((hruns pre).trans hrun) hstep) before hbefore s hrun₀
    exact (comes_back_iff hundisturbed.visiting hleave).mpr hundisturbed

/-- The same, and no visit fails that starts with the cursor on a row of the screen. -/
theorem history_comes_back_iff (hreachable : t.Reachable) (hoff : t.modes.alternateScreen = false)
    (hinside : ∀ event ∈ events, event.staysInside = true) :
    ((∀ before, before <+: events → ∀ t', run handle (visit before) t = some t' →
        t'.scrollback.lines = t.scrollback.lines ∧ t'.cursor = t.cursor) ↔
      ∀ before event, before ++ [event] <+: events →
        ∀ s s', run handle (enter :: before) t = some s → handle event s = some s' →
          s.Quiet event) ∧
      (t.cursor.row < t.rows →
        ∀ before, before <+: events → ∃ t', run handle (visit before) t = some t') :=
  ⟨kept_iff_quiet hreachable hoff hinside, fun hrow _ hbefore =>
    visit_ends hreachable hoff hrow fun event hevent => hinside event (hbefore.subset hevent)⟩

theorem history_comes_back_iff_typing :
    ((∀ before, before <+: [.act (.print 'x'), .act (.print 'y')] →
        ∀ t', run handle (visit before) (new 3 2) = some t' →
          t'.scrollback.lines = (new 3 2).scrollback.lines ∧ t'.cursor = (new 3 2).cursor) ↔
      ∀ before event, before ++ [event] <+: [.act (.print 'x'), .act (.print 'y')] →
        ∀ s s', run handle (enter :: before) (new 3 2) = some s → handle event s = some s' →
          s.Quiet event) ∧
      ∀ before, before <+: [.act (.print 'x'), .act (.print 'y')] →
        ∃ t', run handle (visit before) (new 3 2) = some t' :=
  have hvisits := history_comes_back_iff ⟨3, 2, [], rfl⟩ rfl (List.all_eq_true.mp (by decide))
  ⟨hvisits.1, hvisits.2 (by decide)⟩

/-- Two line feeds of a full-screen program leave a blank line in the history. -/
theorem line_feeds_enter_the_history :
    ¬ ∀ (t : Terminal) (events : List Event), t.Reachable → t.modes.alternateScreen = false →
        (∀ event ∈ events, event.staysInside = true) →
        ∀ t', run handle (visit events) t = some t' →
          t'.scrollback.lines = t.scrollback.lines ∧ t'.cursor = t.cursor := by
  intro hisolated
  have hlines : (run handle (visit [.act (.execute 0x0A), .act (.execute 0x0A)]) (new 3 2)).map
      (fun t => t.scrollback.lines) = some [Row.blank 3] := by decide +kernel
  obtain ⟨t', hrun, hback⟩ := Option.map_eq_some_iff.mp hlines
  have hsame := (hisolated (new 3 2) _ ⟨3, 2, [], rfl⟩ rfl (List.all_eq_true.mp (by decide)) t'
    hrun).1
  rw [hback] at hsame
  cases hsame

end Terminal

end RemoteDesktopTool
