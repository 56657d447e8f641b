import RemoteDesktopTool.Globbing
import RemoteDesktopTool.HostNames

namespace RemoteDesktopTool

open Globbing

/-- `?` stands for any character, and every other one for itself in either case. -/
def FitsHost (c d : Char) : Prop := c = '?' ∨ c.toLower = d.toLower

/-- The hosts that a pattern is written for; `*` stands for any run of characters. -/
def InHostLanguage (pattern text : Text) : Prop := InLanguage (· = '*') FitsHost pattern text

variable {x : Externals} {pattern text : Text} {g : Glob}

/-- The comparison of the loop. -/
def FitsLowered (x : Externals) (c d : Char) : Prop :=
  c = '?' ∨ (x.charToLowercase c).head? = some d

theorem matchesChar_iff {c d : Char} (hc : pattern[g.p]? = some c) (hd : text[g.t]? = some d) :
    matchesChar x pattern text g = true ↔ FitsLowered x c d := by
  simp only [matchesChar, hc, hd, FitsLowered, Bool.or_eq_true, decide_eq_true_eq]

theorem toLower_ne_star {c : Char} (hascii : c.toNat < 128) (h : c ≠ '*') : c.toLower ≠ '*' := by
  have hall : ∀ n < 128, (Char.ofNat n).toLower = '*' → Char.ofNat n = '*' := by decide
  intro hstar
  have hc := hall c.toNat hascii
  rw [Char.ofNat_toNat] at hc
  exact h (hc hstar)

/-- Where the text has no `*`, the loop takes no letter at a `*`. -/
theorem letter_of_matchesChar {c d : Char} (hplain : ∀ d ∈ text, ¬FitsLowered x '*' d)
    (hc : pattern[g.p]? = some c) (hd : text[g.t]? = some d)
    (hmatch : matchesChar x pattern text g = true) : c ≠ '*' ∧ FitsLowered x c d := by
  have hfits := (matchesChar_iff hc hd).mp hmatch
  refine ⟨fun hstar => hplain d (List.mem_of_getElem? hd) ?_, hfits⟩
  rw [← hstar]
  exact hfits

theorem not_takes_of_stuck (ht : g.t < text.length) (hmatch : ¬matchesChar x pattern text g = true)
    (hrun : ¬pattern[g.p]? = some '*') :
    ¬Takes (· = '*') (FitsLowered x) pattern text g.p g.t := by
  refine not_takes_of_misfit ht fun c d hc hd => ⟨fun hstar => hrun ?_, fun hfits => hmatch ?_⟩
  · rw [hc, hstar]
  · exact (matchesChar_iff hc hd).mpr hfits

/-- The loop answers whether one of the ways that are still open leads to the end. -/
theorem wildcardLoop_iff (hplain : ∀ d ∈ text, ¬FitsLowered x '*' d)
    (hstep : InStep (· = '*') pattern g.p g.t g.star) :
    wildcardLoop x pattern text g = true ↔
      Open (· = '*') (FitsLowered x) pattern text g.p g.t g.star := by
  induction g using wildcardLoop.induct x pattern text with
  | case1 g ht hmatch ih =>
    obtain ⟨c, hc⟩ : ∃ c, pattern[g.p]? = some c :=
      ⟨_, List.getElem?_eq_getElem (lt_length_of_matchesChar hmatch)⟩
    have hd : text[g.t]? = some text[g.t] := List.getElem?_eq_getElem ht
    obtain ⟨hstar, hfits⟩ := letter_of_matchesChar hplain hc hd hmatch
    have hnext := ih (hstep.next hc hstar)
    rw [wildcardLoop, dif_pos ht, dif_pos hmatch]
    exact hnext.trans (open_next_iff hc hd hstar hfits).symm
  | case2 g ht hmatch hrun ih =>
    have hnext := ih (inStep_run g.p g.t)
    rw [wildcardLoop, dif_pos ht, dif_neg hmatch, dif_pos hrun]
    exact hnext.trans (open_run_iff hstep hrun rfl).symm
  | case3 g ht hmatch hrun runP runT hs ih =>
    have hnext := ih (inStep_run runP (runT + 1))
    rw [wildcardLoop, dif_pos ht, dif_neg hmatch, dif_neg hrun, hs]
    exact hnext.trans (open_back_iff runP runT (not_takes_of_stuck ht hmatch hrun)).symm
  | case4 g ht hmatch hrun hs =>
    rw [wildcardLoop, dif_pos ht, dif_neg hmatch, dif_neg hrun, hs]
    exact ⟨fun h => absurd h Bool.false_ne_true,
      fun h => absurd h (not_takes_of_stuck ht hmatch hrun)⟩
  | case5 g ht =>
    rw [wildcardLoop, dif_neg ht, open_end_iff hstep (Nat.le_of_not_lt ht), List.isEmpty_iff,
      List.dropWhile_eq_nil_iff]
    exact forall₂_congr fun c _ => decide_eq_true_iff

theorem host_globs_exact (x : Externals) (hx : x.LowersAscii) (pattern text : Text)
    (hpattern : ∀ c ∈ pattern, c.toNat < 128) (htext : ∀ c ∈ text, c.toNat < 128)
    (hstar : '*' ∉ text) :
    wildcardMatch x pattern text = true ↔ InHostLanguage pattern text := by
  have hlower := hx.text text htext
  have hplain : ∀ d ∈ text.map Char.toLower, ¬FitsLowered x '*' d := by
    intro d hd hfits
    obtain ⟨c, hc, rfl⟩ := List.mem_map.mp hd
    have hne : c ≠ '*' := fun h => hstar (h ▸ hc)
    rcases hfits with hmark | hsame
    · cases hmark
    · rw [hx.char '*' (by decide)] at hsame
      exact toLower_ne_star (htext c hc) hne (Option.some.inj hsame).symm
  rw [wildcardMatch, hlower, wildcardLoop_iff (g := .start) hplain trivial]
  refine (inLanguage_map_iff Char.toLower).trans (inLanguage_congr fun c hc d hd => ?_)
  rw [FitsLowered, FitsHost, hx.char c (hpattern c hc)]
  exact or_congr_right ⟨Option.some.inj, congrArg some⟩

theorem ascii_of_all {text : Text} (h : text.all (fun c => c.toNat < 128) = true) :
    ∀ c ∈ text, c.toNat < 128 :=
  fun c hc => of_decide_eq_true (List.all_eq_true.mp h c hc)

theorem host_globs_exact_subdomain :
    wildcardMatch sampleExternals "*.Example.com".toList "a.b.example.COM".toList = true ↔
      InHostLanguage "*.Example.com".toList "a.b.example.COM".toList :=
  host_globs_exact sampleExternals ⟨fun _ _ => rfl, fun _ _ => rfl⟩ _ _ (ascii_of_all rfl)
    (ascii_of_all rfl) (by decide)

end RemoteDesktopTool
