import RemoteDesktopTool.AlternateScreen

namespace RemoteDesktopTool

open Checked

theorem csiArg_one_pos (params : List Nat) (index : Nat) : 0 < csiArg params index 1 := by
  unfold csiArg
  cases params[index]? with
  | none => exact Nat.one_pos
  | some value =>
    cases value with
    | zero => exact Nat.one_pos
    | succ value => exact Nat.succ_pos value

/-- Everything but a resize. -/
def Event.keepsSize : Event → Bool
  | .resize _ _ => false
  | _ => true

namespace Terminal

variable {cols rows : Nat} {t t' : Terminal} {event : Event} {events : List Event}

theorem handle_fits (h : t.toDisplay.Fits cols rows) (hsize : event.keepsSize = true) :
    Ends (fun t' => t'.toDisplay.Fits cols rows) (handle event t) := by
  refine handle_fitsUpTo h ?_ fun _ _ _ enable => h.switchScreen enable
  rintro cols rows rfl
  cases hsize

theorem run_fits (h : t.toDisplay.Fits cols rows)
    (hsize : ∀ event ∈ events, event.keepsSize = true) :
    Ends (fun t' => t'.toDisplay.Fits cols rows) (run handle events t) :=
  Ends.run h fun event hevent _ ht => handle_fits ht (hsize event hevent)

theorem fits_of_run {start : Terminal} {pre : List Event} (h : start.toDisplay.Fits cols rows)
    (hsize : ∀ event ∈ events, event.keepsSize = true) (hpre : pre <+: events)
    (hrun : run handle pre start = some t) : t.toDisplay.Fits cols rows := by
  obtain ⟨t', hrun', hfits⟩ := run_fits h fun event hevent => hsize event (hpre.subset hevent)
  cases Option.some.inj (hrun.symm.trans hrun')
  exact hfits

end Terminal

end RemoteDesktopTool
