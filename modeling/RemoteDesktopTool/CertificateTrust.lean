import RemoteDesktopTool.Certificates

namespace RemoteDesktopTool

namespace CertificateVerifier

variable {x : Externals} {verifier after : CertificateVerifier} {der : List UInt8}
  {caVerified : Bool} {faults : SaveFaults} {decision : CertificateDecision}

def withPin (x : Externals) (verifier : CertificateVerifier) (der : List UInt8) :
    CertificateVerifier :=
  { verifier with pins := verifier.pins.pin x verifier.host (sha256Fingerprint x der) }

/-- What the policy and the pins allow for a certificate that no trusted root vouches for. -/
def Allows (x : Externals) (verifier : CertificateVerifier) (der : List UInt8) : Prop :=
  (verifier.policy ≠ .verify ∧
      verifier.pins.get x verifier.host = some (sha256Fingerprint x der)) ∨
    (verifier.policy = .trustOnFirstUse ∧ verifier.pins.get x verifier.host = none)

instance (x : Externals) (verifier : CertificateVerifier) (der : List UInt8) :
    Decidable (verifier.Allows x der) :=
  inferInstanceAs (Decidable (_ ∨ _))

theorem verify_of_caVerified :
    verifier.verify x der true faults = (.ok .verifiedByCa, verifier) := rfl

theorem save_ok_of_map {pins : PinnedCertificates} {decided : CertificateDecision}
    (h : (pins.save faults).map (fun _ => decided) = .ok decision) :
    pins.save faults = .ok () ∧ decided = decision := by
  cases hsave : pins.save faults with
  | error error =>
    rw [hsave] at h
    cases h
  | ok done =>
    rw [hsave] at h
    exact ⟨rfl, Except.ok.inj h⟩

theorem pinned_of_ok {expected : Text} {error : RdtError}
    (hget : verifier.pins.get x verifier.host = some expected)
    (h : (if expected = sha256Fingerprint x der then
      (Except.ok (CertificateDecision.pinned (sha256Fingerprint x der)), verifier)
      else (.error error, verifier)) = (.ok decision, after)) :
    verifier.pins.get x verifier.host = some (sha256Fingerprint x der) ∧
      decision = .pinned (sha256Fingerprint x der) ∧ after = verifier := by
  by_cases heq : expected = sha256Fingerprint x der
  · rw [if_pos heq, Prod.mk.injEq, Except.ok.injEq] at h
    obtain ⟨rfl, rfl⟩ := h
    exact ⟨heq ▸ hget, rfl, rfl⟩
  · simp [if_neg heq] at h

/-- The two ways in which a certificate is accepted that no trusted root vouches for. -/
theorem verify_ok (h : verifier.verify x der false faults = (.ok decision, after)) :
    (verifier.policy ≠ .verify ∧
        verifier.pins.get x verifier.host = some (sha256Fingerprint x der) ∧
        decision = .pinned (sha256Fingerprint x der) ∧ after = verifier) ∨
      (verifier.policy = .trustOnFirstUse ∧ verifier.pins.get x verifier.host = none ∧
        (verifier.withPin x der).pins.save faults = .ok () ∧
        decision = .recordedOnFirstUse (sha256Fingerprint x der) ∧
        after = verifier.withPin x der) := by
  simp only [verify, Bool.false_eq_true, if_false] at h
  split at h
  next => simp at h
  next expected hpolicy hget =>
    exact Or.inl ⟨by simp [hpolicy], pinned_of_ok hget h⟩
  next => simp at h
  next expected hpolicy hget =>
    exact Or.inl ⟨by simp [hpolicy], pinned_of_ok hget h⟩
  next hpolicy hget =>
    obtain ⟨hresult, rfl⟩ := Prod.mk.inj h
    obtain ⟨hsave, hdecision⟩ := save_ok_of_map hresult
    exact Or.inr ⟨hpolicy, hget, hsave, hdecision.symm, rfl⟩

theorem allows_of_verify (h : (verifier.verify x der false faults).1 = .ok decision) :
    verifier.Allows x der := by
  rcases verify_ok (Prod.ext h rfl : _ = (Except.ok decision, _)) with
    ⟨hpolicy, hget, _, _⟩ | ⟨hpolicy, hget, _⟩
  · exact Or.inl ⟨hpolicy, hget⟩
  · exact Or.inr ⟨hpolicy, hget⟩

variable {peer : Text}

def Accepts (x : Externals) (verifier : CertificateVerifier) (peer : Text) (der : List UInt8)
    (faults : SaveFaults) : Prop :=
  ∃ fingerprint, (verifier.connect x peer (.presented der) faults).1 = .ok fingerprint

theorem accepts_iff : verifier.Accepts x peer der faults ↔
    ∃ decision, (verifier.verify x der (rustlsWebpkiVerified der) faults).1 = .ok decision := by
  unfold Accepts connect
  cases hdecision : (verifier.verify x der (rustlsWebpkiVerified der) faults).1 with
  | error error => simp [hdecision, Except.map]
  | ok decision => simp [hdecision, Except.map]

/-- Any certificate at all is accepted, since every one counts as verified. -/
theorem accepts_of_ne_nil (h : der ≠ []) : verifier.Accepts x peer der faults := by
  have hverified : rustlsWebpkiVerified der = true := by
    simpa [rustlsWebpkiVerified] using h
  refine accepts_iff.mpr ⟨.verifiedByCa, ?_⟩
  rw [hverified, verify_of_caVerified]

theorem allows_of_accepts_nil (h : verifier.Accepts x peer [] faults) : verifier.Allows x [] := by
  obtain ⟨decision, hdecision⟩ := accepts_iff.mp h
  exact allows_of_verify hdecision

/-- The connect path keeps to the policy for those certificates only that the policy allows
anyway, that chain to a trusted root, or that have no bytes at all. -/
theorem connect_keeps_policy_iff (x : Externals) (chainTrusted : List UInt8 → Prop)
    (verifier : CertificateVerifier) (peer : Text) (der : List UInt8) (faults : SaveFaults) :
    (verifier.Accepts x peer der faults → ¬chainTrusted der → verifier.Allows x der) ↔
      der = [] ∨ chainTrusted der ∨ verifier.Allows x der := by
  constructor
  · intro hkeeps
    by_cases hnil : der = []
    · exact Or.inl hnil
    · by_cases htrusted : chainTrusted der
      · exact Or.inr (Or.inl htrusted)
      · exact Or.inr (Or.inr (hkeeps (accepts_of_ne_nil hnil) htrusted))
  · rintro (rfl | htrusted | hallows) haccepts hnot
    · exact allows_of_accepts_nil haccepts
    · exact absurd htrusted hnot
    · exact hallows

def firstCertificate : List UInt8 := Text.asBytes "certificate-bytes-alpha".toList

def changedCertificate : List UInt8 := Text.asBytes "certificate-bytes-bravo".toList

def certificateExternals : Externals :=
  { sampleExternals with
    sha256 := fun bytes =>
      if bytes = firstCertificate then
        [72, 59, 231, 241, 32, 10, 0, 254, 244, 140, 6, 236, 13, 68, 245, 154,
          187, 165, 61, 191, 28, 158, 56, 6, 250, 197, 184, 74, 23, 161, 175, 16]
      else if bytes = changedCertificate then
        [153, 188, 159, 153, 86, 203, 92, 161, 16, 52, 208, 191, 57, 90, 12, 156,
          139, 134, 191, 70, 189, 218, 72, 102, 82, 2, 56, 54, 216, 123, 76, 235]
      else [] }

def pinnedVerifier : CertificateVerifier where
  policy := .verifyOrPinned
  pins := PinnedCertificates.empty.pin certificateExternals "host".toList
    (sha256Fingerprint certificateExternals firstCertificate)
  host := "host".toList

/-- The changed certificate of a pinned host is accepted. -/
theorem changed_certificate_is_accepted :
    ¬ ∀ (x : Externals) (chainTrusted : List UInt8 → Prop) (verifier : CertificateVerifier)
      (peer : Text) (der : List UInt8) (faults : SaveFaults),
      verifier.Accepts x peer der faults → ¬chainTrusted der → verifier.Allows x der := by
  intro h
  have haccepts : pinnedVerifier.Accepts certificateExternals [] changedCertificate .none :=
    accepts_of_ne_nil (by decide +kernel)
  have hallows := h certificateExternals (fun _ => False) pinnedVerifier [] changedCertificate
    .none haccepts id
  revert hallows
  decide +kernel

end CertificateVerifier

end RemoteDesktopTool
