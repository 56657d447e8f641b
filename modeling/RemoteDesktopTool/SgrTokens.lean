import RemoteDesktopTool.SentSequences

namespace RemoteDesktopTool

open Checked

/-- The parameters that a turn of the loop takes together. -/
inductive IsSgrToken : List Nat → Prop
  | code {code : Nat} (hfg : code ≠ 38) (hbg : code ≠ 48) : IsSgrToken [code]
  | indexed {target : Nat} (h : target = 38 ∨ target = 48) (value : Nat) :
    IsSgrToken [target, 5, value]
  | rgb {target : Nat} (h : target = 38 ∨ target = 48) (r g b : Nat) :
    IsSgrToken [target, 2, r, g, b]

theorem length_takeExtendedColor (params : List Nat) :
    (takeExtendedColor params).2.length ≤ params.length := by
  unfold takeExtendedColor
  split
  next => exact Nat.le_refl _
  next => exact Nat.le_add_right _ 2
  next => exact Nat.le_add_right _ 4
  next => exact Nat.le_add_right _ 1

/-- A budget of the number of parameters, or of more, is never used up. -/
theorem sgrLoop_budget {params : List Nat} {fuel fuel' : Nat} (h : params.length ≤ fuel)
    (h' : params.length ≤ fuel') (attrs : Attrs) :
    sgrLoop fuel params attrs = sgrLoop fuel' params attrs := by
  induction fuel generalizing params fuel' attrs with
  | zero =>
    obtain rfl : params = [] := List.length_eq_zero_iff.mp (Nat.le_zero.mp h)
    cases fuel' <;> rfl
  | succ fuel ih =>
    cases params with
    | nil => cases fuel' <;> rfl
    | cons code rest =>
      cases fuel' with
      | zero => cases h'
      | succ fuel' =>
        have hrest := Nat.le_of_succ_le_succ h
        have hrest' := Nat.le_of_succ_le_succ h'
        have htaken := length_takeExtendedColor rest
        unfold sgrLoop
        split_ifs
        · exact ih (htaken.trans hrest) (htaken.trans hrest') _
        · exact ih (htaken.trans hrest) (htaken.trans hrest') _
        · exact ih hrest hrest' _

/-- All the parameters of a sequence, with budget enough. -/
def applySgr (params : List Nat) (attrs : Attrs) : Attrs := sgrLoop params.length params attrs

theorem applySgr_code {code : Nat} (hfg : code ≠ 38) (hbg : code ≠ 48) (rest : List Nat)
    (attrs : Attrs) : applySgr (code :: rest) attrs = applySgr rest (sgrCode code attrs) := by
  rw [applySgr, List.length_cons, sgrLoop, if_neg hfg, if_neg hbg]
  rfl

/-- What a colour changes, of the foreground or of the background. -/
def setColor (target : Nat) (color : Option Color) (attrs : Attrs) : Attrs :=
  if target = 38 then { attrs with fg := color.getD attrs.fg }
  else { attrs with bg := color.getD attrs.bg }

theorem applySgr_color {target : Nat} (h : target = 38 ∨ target = 48) (rest : List Nat)
    (attrs : Attrs) : applySgr (target :: rest) attrs =
      applySgr (takeExtendedColor rest).2
        (setColor target (takeExtendedColor rest).1 attrs) := by
  have htaken := length_takeExtendedColor rest
  rw [applySgr, List.length_cons, sgrLoop]
  rcases h with rfl | rfl
  · exact sgrLoop_budget htaken (Nat.le_refl _) _
  · exact sgrLoop_budget htaken (Nat.le_refl _) _

theorem IsSgrToken.applySgr_append {token : List Nat} (h : IsSgrToken token) (rest : List Nat)
    (attrs : Attrs) : applySgr (token ++ rest) attrs = applySgr rest (applySgr token attrs) := by
  cases h with
  | code hfg hbg =>
    rw [List.singleton_append, applySgr_code hfg hbg, applySgr_code hfg hbg]
    rfl
  | indexed h value =>
    rw [List.cons_append, applySgr_color h, applySgr_color h]
    rfl
  | rgb h r g b =>
    rw [List.cons_append, applySgr_color h, applySgr_color h]
    rfl

theorem IsSgrToken.ne_nil {token : List Nat} (h : IsSgrToken token) : token ≠ [] := by
  cases h <;> simp

/-- A complete token, with the digits it is sent with. -/
structure SgrToken where
  digits : List Digits
  complete : IsSgrToken (digits.map Digits.param)

namespace SgrToken

def codes (token : SgrToken) : List Nat := token.digits.map Digits.param

theorem digits_ne_nil (token : SgrToken) : token.digits ≠ [] := fun h =>
  token.complete.ne_nil (by rw [h, List.map_nil])

end SgrToken

/-- `CSI m` with these parameters. -/
def selectGraphics (params : List Nat) : Action := .csi params [] false 0x6D

def CsiSequence.selectGraphics (digits : List Digits) (h : digits ≠ []) : CsiSequence :=
  ofDigits none digits 0x6D no_marker h rfl

theorem CsiSequence.action_selectGraphics {digits : List Digits} (h : digits ≠ []) :
    (selectGraphics digits h).action =
      RemoteDesktopTool.selectGraphics (digits.map Digits.param) :=
  action_ofDigits _ h rfl

namespace Display

variable {d : Display}

theorem sgr_of_ne_nil {params : List Nat} (h : params ≠ []) (d : Display) :
    d.sgr params = { d with cursor.attrs := applySgr params d.cursor.attrs } := if_neg h

theorem apply_selectGraphics (params : List Nat) (d : Display) :
    apply (selectGraphics params) d = some { d.sgr params with dirty := true } := rfl

theorem apply_selectGraphics_append {token rest : List Nat} (h : IsSgrToken token)
    (hrest : rest ≠ []) (d : Display) :
    apply (selectGraphics (token ++ rest)) d =
      (apply (selectGraphics token) d).bind (apply (selectGraphics rest)) := by
  have hboth : token ++ rest ≠ [] := List.append_ne_nil_of_right_ne_nil token hrest
  rw [apply_selectGraphics, apply_selectGraphics, Option.bind_some, apply_selectGraphics,
    sgr_of_ne_nil hboth, sgr_of_ne_nil h.ne_nil, sgr_of_ne_nil hrest, h.applySgr_append]

/-- One sequence with all tokens does what one sequence for each of them does. -/
theorem run_selectGraphics (token : SgrToken) (tokens : List SgrToken) (d : Display) :
    run apply ((token :: tokens).map fun token => selectGraphics token.codes) d =
      apply (selectGraphics ((token :: tokens).flatMap SgrToken.codes)) d := by
  induction tokens generalizing token d with
  | nil => rw [List.map_singleton, run_singleton, List.flatMap_singleton]
  | cons next tokens ih =>
    have hrest : (next :: tokens).flatMap SgrToken.codes ≠ [] :=
      List.append_ne_nil_of_left_ne_nil next.complete.ne_nil _
    have htoken : IsSgrToken token.codes := token.complete
    rw [List.flatMap_cons, apply_selectGraphics_append htoken hrest, List.map_cons, run_cons]
    exact congrArg _ (funext fun d' => ih next d')

end Display

namespace Terminal

theorem run_selectGraphics_eq (params : List (List Nat)) (t : Terminal) :
    run apply (params.map selectGraphics) t =
      (run Display.apply (params.map selectGraphics) t.toDisplay).map fun d =>
        ofParts d t.parser := by
  refine run_apply_of_not_reset (fun action haction => ?_) t
  obtain ⟨codes, _, rfl⟩ := List.mem_map.mp haction
  rfl

/-- A token, sent as a sequence of its own. -/
def sequenceOf (token : SgrToken) : CsiSequence :=
  CsiSequence.selectGraphics token.digits token.digits_ne_nil

theorem action_sequenceOf (token : SgrToken) :
    (sequenceOf token).action = selectGraphics token.codes :=
  CsiSequence.action_selectGraphics token.digits_ne_nil

/-- SGR is a homomorphism from the tokens of a sequence to the changes of the terminal, whatever
state it is in; and so are the bytes, where control sequences are read. -/
theorem sgr_homomorphism (token : SgrToken) (tokens : List SgrToken) (t : Terminal) :
    apply (selectGraphics ((token :: tokens).flatMap SgrToken.codes)) t =
        run apply ((token :: tokens).map fun token => selectGraphics token.codes) t ∧
      (t.parser.state = .ground →
        t.advance (CsiSequence.selectGraphics ((token :: tokens).flatMap SgrToken.digits)
            (List.append_ne_nil_of_left_ne_nil token.digits_ne_nil _)).bytes =
          t.advance ((token :: tokens).flatMap fun token => (sequenceOf token).bytes)) := by
  have hdisplay := Display.run_selectGraphics token tokens t.toDisplay
  refine ⟨?_, fun hground => ?_⟩
  · have hrun := run_selectGraphics_eq ((token :: tokens).map SgrToken.codes) t
    have hone := run_selectGraphics_eq [(token :: tokens).flatMap SgrToken.codes] t
    rw [List.map_map] at hrun
    rw [List.map_singleton, run_singleton, run_singleton] at hone
    exact hone.trans ((congrArg _ hdisplay).symm.trans hrun.symm)
  · have hcodes : ((token :: tokens).flatMap SgrToken.digits).map Digits.param =
        (token :: tokens).flatMap SgrToken.codes := List.map_flatMap
    have hactions : (sequenceOf token).action ::
        (tokens.map sequenceOf).map CsiSequence.action =
          (token :: tokens).map fun token => selectGraphics token.codes := by
      rw [List.map_map, List.map_cons, action_sequenceOf]
      exact congrArg _ (List.map_congr_left fun token _ => action_sequenceOf token)
    have hsent := advance_sequences hground (sequenceOf token) (tokens.map sequenceOf)
    rw [hactions, hdisplay, List.flatMap_map] at hsent
    rw [advance_csi hground, CsiSequence.action_selectGraphics, hcodes]
    exact hsent.symm

end Terminal

end RemoteDesktopTool
