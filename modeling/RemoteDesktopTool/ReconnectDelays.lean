import RemoteDesktopTool.ReconnectPolicy

namespace RemoteDesktopTool

open Overflow

namespace ReconnectPolicy

variable {policy : ReconnectPolicy} {attempt a b : UInt32} {build : Build} {d da db : UInt64}

/-- What the documentation says of a delay, and that it is computed without an overflow. -/
structure WithinBounds (policy : ReconnectPolicy) (attempt : UInt32) (d : UInt64) : Prop where
  exact : (policy.delayFor .checked attempt).isSome
  capped : d ≤ policy.maxBackoffSecs
  grown : policy.baseDelay attempt ≤ d.toNat
  jitter : d.toNat ≤ policy.baseDelay attempt + policy.baseDelay attempt / 4

/-- The jitter of attempt `b` makes up for that of attempt `a`, or the bound hides both; where a sum
wraps around, what is left of it counts. -/
structure KeepsUp (policy : ReconnectPolicy) (a b : UInt32) : Prop where
  plain : policy.jittered b < UInt64.size → policy.jittered a < UInt64.size →
    a.toNat ≤ 6 ∨ a.toNat % 4 ≤ b.toNat % 4 ∨
      policy.maxBackoffSecs.toNat ≤ (64 + 16 * (b.toNat % 4)) * policy.initialBackoffSecs.toNat
  wrapped : UInt64.size ≤ policy.jittered b →
    policy.jittered a % UInt64.size ≤ policy.jittered b % UInt64.size

theorem baseDelay_le_max (policy : ReconnectPolicy) (attempt : UInt32) :
    policy.baseDelay attempt ≤ policy.maxBackoffSecs.toNat :=
  Nat.min_le_right _ _

theorem baseDelay_lt_size (policy : ReconnectPolicy) (attempt : UInt32) :
    policy.baseDelay attempt < UInt64.size :=
  Nat.lt_of_le_of_lt (policy.baseDelay_le_max attempt) policy.maxBackoffSecs.toNat_lt

/-- The saturated product is cut to the bound like the exact one. -/
theorem toNat_base (hvalid : policy.validate = .ok ()) :
    (min (saturatingMul policy.initialBackoffSecs (.ofNat (2 ^ min (attempt.toNat - 1) 6)))
      (max policy.maxBackoffSecs policy.initialBackoffSecs)).toNat = policy.baseDelay attempt := by
  obtain ⟨_, hle⟩ := validate_ok_iff.mp hvalid
  have hpow : 2 ^ min (attempt.toNat - 1) 6 < UInt64.size := by
    have hexp : 2 ^ min (attempt.toNat - 1) 6 ≤ 2 ^ 6 :=
      Nat.pow_le_pow_right (by omega) (Nat.min_le_right _ _)
    exact Nat.lt_of_le_of_lt hexp (by decide)
  have hmax : policy.maxBackoffSecs.toNat ≤ UInt64.size - 1 :=
    Nat.le_sub_one_of_lt policy.maxBackoffSecs.toNat_lt
  rw [toNat_min, toNat_max, toNat_saturatingMul, UInt64.toNat_ofNat', Nat.mod_eq_of_lt hpow,
    Nat.max_eq_left hle, Nat.min_assoc, Nat.min_eq_right hmax, baseDelay]

/-- An attempt number for which a delay is computed. -/
def Admits (policy : ReconnectPolicy) (attempt : UInt32) : Prop :=
  (!policy.enabled || attempt = 0) = false ∧
    (decide (0 < policy.maxAttempts) && decide (policy.maxAttempts < attempt)) = false

theorem delayFor_of_not_admits (h : ¬policy.Admits attempt) :
    policy.delayFor build attempt = some none := by
  unfold delayFor
  split
  next => rfl
  next hon =>
    split
    next => rfl
    next hwithin => exact absurd ⟨Bool.eq_false_iff.mpr hon, Bool.eq_false_iff.mpr hwithin⟩ h

theorem delayFor_ne_none_iff : ¬policy.delayFor build attempt = some none ↔
    policy.Admits attempt := by
  refine ⟨fun h => by_contra fun hnot => h (delayFor_of_not_admits hnot), fun h hnone => ?_⟩
  simp only [delayFor, h.1, h.2, Bool.false_eq_true, if_false, Option.bind_eq_bind] at hnone
  obtain ⟨jitter, _, hsum⟩ := Option.bind_eq_some_iff.mp hnone
  obtain ⟨delayed, _, hdelay⟩ := Option.bind_eq_some_iff.mp hsum
  cases Option.some.inj hdelay

/-- The jitter itself always fits, so only the last sum can overflow. -/
theorem delayFor_of_admits (hvalid : policy.validate = .ok ()) (h : policy.Admits attempt) :
    ∃ base : UInt64, base.toNat = policy.baseDelay attempt ∧
      policy.delayFor build attempt = (u64 build (policy.jittered attempt)).map fun delayed =>
        some (min delayed (max policy.maxBackoffSecs base)) := by
  refine ⟨_, toNat_base hvalid, ?_⟩
  have hquarter (base : UInt64) : (base / 4).toNat = base.toNat / 4 := UInt64.toNat_div base 4
  have hjitter : policy.baseDelay attempt / 4 * (attempt.toNat % 4) < UInt64.size := by
    have hbase := policy.baseDelay_lt_size attempt
    have hphase : attempt.toNat % 4 ≤ 3 := by omega
    have hmul : policy.baseDelay attempt / 4 * (attempt.toNat % 4) ≤
        policy.baseDelay attempt / 4 * 3 := Nat.mul_le_mul_left _ hphase
    omega
  have hexact : (UInt64.ofNat (policy.baseDelay attempt / 4 * (attempt.toNat % 4))).toNat =
      policy.baseDelay attempt / 4 * (attempt.toNat % 4) := by
    rw [UInt64.toNat_ofNat']
    exact Nat.mod_eq_of_lt hjitter
  simp only [delayFor, h.1, h.2, Bool.false_eq_true, if_false, hquarter, toNat_base hvalid,
    u64_of_lt hjitter, Option.bind_eq_bind, Option.bind_some, hexact, jittered]
  cases u64 build (policy.baseDelay attempt + policy.baseDelay attempt / 4 * (attempt.toNat % 4))
    <;> rfl

theorem admits_of_delayFor (h : policy.delayFor build attempt = some (some d)) :
    policy.Admits attempt := by
  by_contra hnot
  rw [delayFor_of_not_admits hnot] at h
  cases Option.some.inj h

theorem jittered_bounds (policy : ReconnectPolicy) (attempt : UInt32) :
    policy.baseDelay attempt ≤ policy.jittered attempt ∧
      4 * policy.jittered attempt ≤ 7 * policy.baseDelay attempt := by
  have hphase : attempt.toNat % 4 ≤ 3 := by omega
  have hmul : policy.baseDelay attempt / 4 * (attempt.toNat % 4) ≤
      policy.baseDelay attempt / 4 * 3 := Nat.mul_le_mul_left _ hphase
  unfold jittered
  omega

/-- A delay is the sum as it is held, cut to the upper bound. -/
theorem toNat_of_delayFor (hvalid : policy.validate = .ok ())
    (h : policy.delayFor build attempt = some (some d)) :
    d.toNat = min (policy.jittered attempt % UInt64.size) policy.maxBackoffSecs.toNat := by
  obtain ⟨base, hbase, heq⟩ := delayFor_of_admits hvalid (admits_of_delayFor h)
  rw [heq] at h
  obtain ⟨delayed, hdelayed, hd⟩ := Option.map_eq_some_iff.mp h
  have hmax : max policy.maxBackoffSecs.toNat base.toNat = policy.maxBackoffSecs.toNat := by
    rw [hbase]
    exact Nat.max_eq_left (policy.baseDelay_le_max attempt)
  rw [← Option.some.inj hd, toNat_min, toNat_max, hmax, toNat_of_u64 hdelayed]

theorem isSome_delayFor_checked (hvalid : policy.validate = .ok ())
    (h : policy.delayFor build attempt = some (some d)) :
    (policy.delayFor .checked attempt).isSome ↔ policy.jittered attempt < UInt64.size := by
  have hadmits := admits_of_delayFor h
  obtain ⟨base, _, heq⟩ : ∃ base : UInt64, base.toNat = policy.baseDelay attempt ∧
      policy.delayFor .checked attempt = (u64 .checked (policy.jittered attempt)).map fun delayed =>
        some (min delayed (max policy.maxBackoffSecs base)) := delayFor_of_admits hvalid hadmits
  rw [heq, Option.isSome_map]
  exact u64_checked_isSome_iff

/-- A delay is as documented exactly when its sum fits into 64 bits, and the jitter is one quarter
at most, or nothing in whole seconds, or cut by the upper bound. -/
theorem withinBounds_iff (hvalid : policy.validate = .ok ())
    (h : policy.delayFor build attempt = some (some d)) :
    policy.WithinBounds attempt d ↔ policy.jittered attempt < UInt64.size ∧
      (attempt.toNat % 4 ≤ 1 ∨ policy.baseDelay attempt < 4 ∨ policy.maxBackoffSecs.toNat ≤
        policy.baseDelay attempt + policy.baseDelay attempt / 4) := by
  have hvalue := toNat_of_delayFor hvalid h
  have hchecked := isSome_delayFor_checked hvalid h
  have hle := policy.baseDelay_le_max attempt
  have hphase : attempt.toNat % 4 = 0 ∨ attempt.toNat % 4 = 1 ∨ attempt.toNat % 4 = 2 ∨
      attempt.toNat % 4 = 3 := by omega
  constructor
  · rintro ⟨hexact, _, _, hjitter⟩
    have hfits := hchecked.mp hexact
    rw [Nat.mod_eq_of_lt hfits, jittered] at hvalue
    refine ⟨hfits, ?_⟩
    rcases hphase with hk | hk | hk | hk
    all_goals
      rw [hk] at hvalue
      omega
  · rintro ⟨hfits, hcond⟩
    rw [Nat.mod_eq_of_lt hfits, jittered] at hvalue
    have hjitter : d.toNat ≤ policy.baseDelay attempt + policy.baseDelay attempt / 4 := by
      rcases hphase with hk | hk | hk | hk
      all_goals
        rw [hk] at hvalue
        omega
    exact ⟨hchecked.mpr hfits, UInt64.le_iff_toNat_le.mpr (by omega), by omega, hjitter⟩

theorem withinBounds_iff_sample :
    standard.WithinBounds 2 6 ↔ standard.jittered 2 < UInt64.size ∧
      ((2 : UInt32).toNat % 4 ≤ 1 ∨ standard.baseDelay 2 < 4 ∨ standard.maxBackoffSecs.toNat ≤
        standard.baseDelay 2 + standard.baseDelay 2 / 4) :=
  withinBounds_iff (by decide) (show standard.delayFor .checked 2 = some (some 6) by decide)

/-- The standard policy waits for six seconds where five are the most; and a sum of large bounds
overflows. -/
theorem delay_out_of_bounds :
    (standard.validate = .ok () ∧ standard.delayFor .checked 2 = some (some 6) ∧
      ¬standard.WithinBounds 2 6) ∧
    ∃ policy : ReconnectPolicy, policy.validate = .ok () ∧ policy.delayFor .checked 1 = none ∧
      ∃ d, policy.delayFor .wrapping 1 = some (some d) ∧ ¬policy.WithinBounds 1 d := by
  refine ⟨⟨by decide, by decide, fun h => absurd h.jitter (by decide)⟩, ?_⟩
  refine ⟨⟨true, 0, 0xFFFFFFFFFFFFFFFF, 0xFFFFFFFFFFFFFFFF⟩, by decide, by decide, ?_⟩
  exact ⟨4611686018427387902, by decide, fun h => absurd h.grown (by decide)⟩

theorem baseDelay_mono (h : a.toNat ≤ b.toNat) : policy.baseDelay a ≤ policy.baseDelay b := by
  have hexp : min (a.toNat - 1) 6 ≤ min (b.toNat - 1) 6 := by omega
  have hpow : 2 ^ min (a.toNat - 1) 6 ≤ 2 ^ min (b.toNat - 1) 6 :=
    Nat.pow_le_pow_right (by omega) hexp
  have hmul := Nat.mul_le_mul_left policy.initialBackoffSecs.toNat hpow
  unfold baseDelay
  omega

/-- Among the first attempts the base doubles. -/
theorem double_baseDelay_le (hpos : 0 < a.toNat) (ha : a.toNat ≤ 6) (h : a.toNat < b.toNat) :
    min (2 * policy.baseDelay a) policy.maxBackoffSecs.toNat ≤ policy.baseDelay b := by
  have hexp : min (a.toNat - 1) 6 + 1 ≤ min (b.toNat - 1) 6 := by omega
  have hpow : 2 ^ (min (a.toNat - 1) 6 + 1) ≤ 2 ^ min (b.toNat - 1) 6 :=
    Nat.pow_le_pow_right (by omega) hexp
  have hmul := Nat.mul_le_mul_left policy.initialBackoffSecs.toNat hpow
  rw [Nat.pow_succ, ← Nat.mul_assoc] at hmul
  unfold baseDelay
  omega

theorem baseDelay_of_late (h : 7 ≤ a.toNat) : policy.baseDelay a =
    min (64 * policy.initialBackoffSecs.toNat) policy.maxBackoffSecs.toNat := by
  have hexp : min (a.toNat - 1) 6 = 6 := by omega
  have hpow : 2 ^ 6 = 64 := by decide
  rw [baseDelay, hexp, hpow, Nat.mul_comm]

/-- The first six delays do not shrink: a jitter is below the next base. -/
theorem jittered_le_of_early (hpos : 0 < a.toNat) (ha : a.toNat ≤ 6) (h : a.toNat ≤ b.toNat) :
    min (policy.jittered a) policy.maxBackoffSecs.toNat ≤
      min (policy.jittered b) policy.maxBackoffSecs.toNat := by
  rcases Nat.eq_or_lt_of_le h with heq | hlt
  · rw [UInt32.toNat_inj.mp heq]
  · have hdouble : min (2 * policy.baseDelay a) policy.maxBackoffSecs.toNat ≤
        policy.baseDelay b := double_baseDelay_le hpos ha hlt
    have hjitter := policy.jittered_bounds a
    have hgrown := policy.jittered_bounds b
    omega

/-- From the seventh attempt on the base stays, and the jitter decides. -/
theorem jittered_le_iff_of_late (hvalid : policy.validate = .ok ()) (ha : 7 ≤ a.toNat)
    (h : a.toNat ≤ b.toNat) :
    min (policy.jittered a) policy.maxBackoffSecs.toNat ≤
        min (policy.jittered b) policy.maxBackoffSecs.toNat ↔
      a.toNat % 4 ≤ b.toNat % 4 ∨ policy.maxBackoffSecs.toNat ≤
        (64 + 16 * (b.toNat % 4)) * policy.initialBackoffSecs.toNat := by
  obtain ⟨hpos, hle⟩ := validate_ok_iff.mp hvalid
  have hbase (n : UInt32) (hn : 7 ≤ n.toNat) : policy.baseDelay n =
      min (64 * policy.initialBackoffSecs.toNat) policy.maxBackoffSecs.toNat :=
    baseDelay_of_late hn
  have hkb : b.toNat % 4 = 0 ∨ b.toNat % 4 = 1 ∨ b.toNat % 4 = 2 ∨ b.toNat % 4 = 3 := by omega
  have hka : a.toNat % 4 = 0 ∨ a.toNat % 4 = 1 ∨ a.toNat % 4 = 2 ∨ a.toNat % 4 = 3 := by omega
  rw [jittered, jittered, hbase a ha, hbase b (by omega)]
  rcases hkb with hkb | hkb | hkb | hkb
  all_goals
    rcases hka with hka | hka | hka | hka
    all_goals
      rw [hka, hkb]
      omega

/-- A sum that wraps around leaves less than its base. -/
theorem jittered_mod_of_ge (h : UInt64.size ≤ policy.jittered a) :
    policy.jittered a % UInt64.size < policy.baseDelay a := by
  obtain ⟨_, hle⟩ := policy.jittered_bounds a
  have hbase := policy.baseDelay_lt_size a
  have hlt : policy.jittered a - UInt64.size < UInt64.size := by omega
  rw [Nat.mod_eq_sub_mod h, Nat.mod_eq_of_lt hlt]
  omega

theorem pos_of_delayFor (h : policy.delayFor build attempt = some (some d)) :
    0 < attempt.toNat := by
  have hadmits := (admits_of_delayFor h).1
  rw [Bool.or_eq_false_iff, decide_eq_false_iff_not] at hadmits
  exact Nat.pos_of_ne_zero fun hzero => hadmits.2 (UInt32.toNat_inj.mp hzero)

/-- The delay before a later attempt is not shorter exactly when the jitter keeps up. -/
theorem delay_le_iff (hvalid : policy.validate = .ok ()) (hab : a ≤ b)
    (ha : policy.delayFor build a = some (some da))
    (hb : policy.delayFor build b = some (some db)) :
    da ≤ db ↔ policy.KeepsUp a b := by
  have hle : a.toNat ≤ b.toNat := UInt32.le_iff_toNat_le.mp hab
  have hmax := policy.baseDelay_le_max b
  have hmono : policy.baseDelay a ≤ policy.baseDelay b := baseDelay_mono hle
  rw [UInt64.le_iff_toNat_le, toNat_of_delayFor hvalid ha, toNat_of_delayFor hvalid hb]
  rcases Nat.lt_or_ge (policy.jittered b) UInt64.size with hfits | hover
  · have hgrown := (policy.jittered_bounds b).1
    rw [Nat.mod_eq_of_lt hfits]
    rcases Nat.lt_or_ge (policy.jittered a) UInt64.size with hfits' | hover'
    · rw [Nat.mod_eq_of_lt hfits']
      have hplain : policy.KeepsUp a b ↔ (a.toNat ≤ 6 ∨ a.toNat % 4 ≤ b.toNat % 4 ∨
          policy.maxBackoffSecs.toNat ≤
            (64 + 16 * (b.toNat % 4)) * policy.initialBackoffSecs.toNat) :=
        ⟨fun h => h.plain hfits hfits', fun h => ⟨fun _ _ => h, fun hover => by omega⟩⟩
      rw [hplain]
      rcases Nat.lt_or_ge 6 a.toNat with hlate | hearly
      · have hnot : ¬a.toNat ≤ 6 := by omega
        rw [jittered_le_iff_of_late hvalid hlate hle, or_iff_right hnot]
      · exact iff_of_true (jittered_le_of_early (pos_of_delayFor ha) hearly hle) (Or.inl hearly)
    · have hless := jittered_mod_of_ge hover'
      exact iff_of_true (by omega) ⟨fun _ hfits' => by omega, fun hover => by omega⟩
  · have hless := jittered_mod_of_ge hover
    have hwrapped : policy.KeepsUp a b ↔
        policy.jittered a % UInt64.size ≤ policy.jittered b % UInt64.size :=
      ⟨fun h => h.wrapped hover, fun h => ⟨fun hfits => by omega, fun _ => h⟩⟩
    rw [hwrapped]
    omega

theorem delay_le_iff_sample :
    (96 : UInt64) ≤ 128 ↔ (⟨true, 0, 2, 1000⟩ : ReconnectPolicy).KeepsUp 6 8 :=
  have hfirst : (⟨true, 0, 2, 1000⟩ : ReconnectPolicy).delayFor .checked 6 = some (some 96) := by
    decide
  delay_le_iff (by decide) (by decide) hfirst (by decide)

/-- The client waits for 224 seconds before the seventh attempt, and for 128 before the eighth. -/
theorem delay_shrinks : ∃ (policy : ReconnectPolicy) (a b : UInt32) (da db : UInt64),
    policy.validate = .ok () ∧ a ≤ b ∧ policy.delayFor .checked a = some (some da) ∧
      policy.delayFor .checked b = some (some db) ∧ ¬da ≤ db :=
  ⟨⟨true, 0, 2, 1000⟩, 7, 8, 224, 128, by decide, by decide, by decide, by decide, by decide⟩

end ReconnectPolicy

end RemoteDesktopTool
