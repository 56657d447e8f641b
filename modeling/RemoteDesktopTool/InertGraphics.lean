import RemoteDesktopTool.SgrTokens
import Mathlib.Tactic.IntervalCases

namespace RemoteDesktopTool

/-- The codes that set an attribute, those that begin a colour apart. -/
def setsAttribute (code : Nat) : Bool :=
  code ≤ 9 || (21 ≤ code && code ≤ 25) || (27 ≤ code && code ≤ 49) || (90 ≤ code && code ≤ 97) ||
    (100 ≤ code && code ≤ 107)

/-- Parameters among which no code sets an attribute and no colour is complete. -/
inductive SgrInert : List Nat → Prop
  | nil : SgrInert []
  | code {code : Nat} {rest : List Nat} (hfg : code ≠ 38) (hbg : code ≠ 48)
    (hcode : setsAttribute code = false) (hrest : SgrInert rest) : SgrInert (code :: rest)
  | color {target : Nat} {rest : List Nat} (h : target = 38 ∨ target = 48)
    (hcolor : (takeExtendedColor rest).1 = none) (hrest : SgrInert (takeExtendedColor rest).2) :
    SgrInert (target :: rest)

/-- Attributes that have nothing in common. -/
structure Attrs.Differs (a b : Attrs) : Prop where
  fg : a.fg ≠ b.fg
  bg : a.bg ≠ b.bg
  bold : a.bold ≠ b.bold
  dim : a.dim ≠ b.dim
  italic : a.italic ≠ b.italic
  underline : a.underline ≠ b.underline
  blink : a.blink ≠ b.blink
  inverse : a.inverse ≠ b.inverse
  hidden : a.hidden ≠ b.hidden
  strikethrough : a.strikethrough ≠ b.strikethrough

theorem sgrCode_of_le {code : Nat} (h : 108 ≤ code) (attrs : Attrs) :
    sgrCode code attrs = attrs := by
  obtain ⟨n, rfl⟩ : ∃ n, code = n + 108 := ⟨code - 108, by omega⟩
  change (if 30 ≤ n + 108 ∧ n + 108 ≤ 37 then { attrs with fg := .normal (n + 108 - 30) }
    else if 40 ≤ n + 108 ∧ n + 108 ≤ 47 then { attrs with bg := .normal (n + 108 - 40) }
    else if 90 ≤ n + 108 ∧ n + 108 ≤ 97 then { attrs with fg := .bright (n + 108 - 90) }
    else if 100 ≤ n + 108 ∧ n + 108 ≤ 107 then { attrs with bg := .bright (n + 108 - 100) }
    else attrs) = attrs
  rw [if_neg (by omega), if_neg (by omega), if_neg (by omega), if_neg (by omega)]

theorem sgrCode_of_not_sets {code : Nat} (h : setsAttribute code = false) (attrs : Attrs) :
    sgrCode code attrs = attrs := by
  by_cases hlarge : 108 ≤ code
  · exact sgrCode_of_le hlarge attrs
  · interval_cases code
    all_goals first | rfl | exact absurd h.symm Bool.false_ne_true

/-- A code that sets an attribute makes it the same in all attributes. -/
theorem sgrCode_agrees {code : Nat} (hfg : code ≠ 38) (hbg : code ≠ 48)
    (h : setsAttribute code = true) (a b : Attrs) :
    ¬(sgrCode code a).Differs (sgrCode code b) := by
  intro hdiffers
  by_cases hlarge : 108 ≤ code
  · simp only [setsAttribute, Bool.or_eq_true, Bool.and_eq_true, decide_eq_true_eq] at h
    omega
  · interval_cases code
    all_goals first
      | exact absurd h Bool.false_ne_true
      | exact hdiffers.fg rfl
      | exact hdiffers.bg rfl
      | exact hdiffers.bold rfl
      | exact hdiffers.dim rfl
      | exact hdiffers.italic rfl
      | exact hdiffers.underline rfl
      | exact hdiffers.blink rfl
      | exact hdiffers.inverse rfl
      | exact hdiffers.hidden rfl
      | exact hdiffers.strikethrough rfl
      | exact absurd rfl hfg
      | exact absurd rfl hbg

theorem setColor_none (target : Nat) (attrs : Attrs) : setColor target none attrs = attrs := by
  unfold setColor
  split <;> rfl

theorem setColor_agrees (target : Nat) (color : Color) (a b : Attrs) :
    ¬(setColor target (some color) a).Differs (setColor target (some color) b) := by
  intro hdiffers
  unfold setColor at hdiffers
  split at hdiffers
  next => exact hdiffers.fg rfl
  next => exact hdiffers.bg rfl

theorem SgrInert.applySgr {params : List Nat} (h : SgrInert params) (attrs : Attrs) :
    applySgr params attrs = attrs := by
  induction h with
  | nil => rfl
  | code hfg hbg hcode _ ih => rw [applySgr_code hfg hbg, sgrCode_of_not_sets hcode, ih]
  | color h hcolor _ ih => rw [applySgr_color h, hcolor, setColor_none, ih]

/-- Parameters that leave attributes with nothing in common as different as they were, set
nothing. -/
theorem sgrInert_of_differs {params : List Nat} {a b : Attrs}
    (h : (applySgr params a).Differs (applySgr params b)) : SgrInert params ∧ a.Differs b := by
  induction hlen : params.length using Nat.strongRecOn generalizing params a b with
  | ind n ih =>
    cases params with
    | nil => exact ⟨.nil, h⟩
    | cons code rest =>
      rw [List.length_cons] at hlen
      by_cases hcolor : code = 38 ∨ code = 48
      · rw [applySgr_color hcolor, applySgr_color hcolor] at h
        have hshorter : (takeExtendedColor rest).2.length < n := by
          have htaken := length_takeExtendedColor rest
          omega
        obtain ⟨hinert, hdiffers⟩ := ih _ hshorter h rfl
        cases hnone : (takeExtendedColor rest).1 with
        | none =>
          rw [hnone, setColor_none, setColor_none] at hdiffers
          exact ⟨.color hcolor hnone hinert, hdiffers⟩
        | some color =>
          rw [hnone] at hdiffers
          exact absurd hdiffers (setColor_agrees code color a b)
      · obtain ⟨hfg, hbg⟩ := not_or.mp hcolor
        rw [applySgr_code hfg hbg, applySgr_code hfg hbg] at h
        obtain ⟨hinert, hdiffers⟩ := ih rest.length (by omega) h rfl
        cases hcode : setsAttribute code with
        | true => exact absurd hdiffers (sgrCode_agrees hfg hbg hcode a b)
        | false =>
          rw [sgrCode_of_not_sets hcode, sgrCode_of_not_sets hcode] at hdiffers
          exact ⟨.code hfg hbg hcode hinert, hdiffers⟩

end RemoteDesktopTool
