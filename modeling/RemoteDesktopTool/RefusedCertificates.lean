import RemoteDesktopTool.CertificateTrust

namespace RemoteDesktopTool

/-- Some step of saving the pins fails. -/
def PinnedCertificates.SaveFails (pins : PinnedCertificates) (faults : SaveFaults) : Prop :=
  ∀ file, pins.path = some file →
    file.parent.isSome ∧ faults.createDir.isSome ∨ faults.encode.isSome ∨ faults.write.isSome ∨
      faults.restrict.isSome

/-- What failed before fails again. -/
structure SaveFaults.Recurs (faults again : SaveFaults) : Prop where
  createDir : faults.createDir.isSome → again.createDir.isSome
  encode : faults.encode.isSome → again.encode.isSome
  write : faults.write.isSome → again.write.isSome
  restrict : faults.restrict.isSome → again.restrict.isSome

theorem attempt_ok_iff {fault : Option Text} {report : Text → RdtError} :
    attempt fault report = .ok () ↔ ¬fault.isSome := by
  cases fault <;> simp [attempt]

theorem attempt_bind_ok_iff {fault : Option Text} {report : Text → RdtError}
    {next : Unit → RdtResult Unit} :
    attempt fault report >>= next = .ok () ↔ ¬fault.isSome ∧ next () = .ok () := by
  cases fault with
  | none => simp [attempt, bind, Except.bind]
  | some error => simp [attempt, bind, Except.bind]

theorem PinnedCertificates.save_ok_iff (pins : PinnedCertificates) (faults : SaveFaults) :
    pins.save faults = .ok () ↔ ¬pins.SaveFails faults := by
  unfold save SaveFails
  cases pins.path with
  | none => simp
  | some file =>
    cases hparent : file.parent with
    | none =>
      simp only [hparent, attempt_bind_ok_iff, attempt_ok_iff]
      simp [hparent]
    | some parent =>
      simp only [hparent, attempt_bind_ok_iff, attempt_ok_iff]
      simp [hparent]

namespace CertificateVerifier

variable {x : Externals} {verifier after : CertificateVerifier} {der : List UInt8}
  {caVerified : Bool} {faults : SaveFaults} {error : RdtError}

/-- A refusal leaves the pins as they are, and is repeated. -/
def ForgetsRefused (verifier : CertificateVerifier) (x : Externals) (der : List UInt8)
    (caVerified : Bool) (faults : SaveFaults) : Prop :=
  ∀ error after, verifier.verify x der caVerified faults = (.error error, after) →
    after.pins = verifier.pins ∧ ∀ again, faults.Recurs again →
      ∃ error', (after.verify x der caVerified again).1 = .error error'

/-- But for the first use of a certificate, the verifier stays as it is, whatever the files do. -/
theorem verify_fixed (h : caVerified = true ∨ verifier.policy ≠ .trustOnFirstUse ∨
    verifier.pins.get x verifier.host ≠ none) (again : SaveFaults) :
    verifier.verify x der caVerified again =
      ((verifier.verify x der caVerified faults).1, verifier) := by
  cases caVerified with
  | true => rfl
  | false =>
    simp only [verify, Bool.false_eq_true, if_false]
    split
    next => rfl
    next => split <;> rfl
    next => rfl
    next => split <;> rfl
    next hpolicy hget => simp [hpolicy, hget] at h

theorem verify_firstUse (der : List UInt8) (hpolicy : verifier.policy = .trustOnFirstUse)
    (hget : verifier.pins.get x verifier.host = none) (faults : SaveFaults) :
    verifier.verify x der false faults =
      (((verifier.withPin x der).pins.save faults).map fun _ =>
        .recordedOnFirstUse (sha256Fingerprint x der), verifier.withPin x der) := by
  obtain ⟨policy, pins, host⟩ := verifier
  obtain rfl : policy = .trustOnFirstUse := hpolicy
  simp only [verify, Bool.false_eq_true, if_false, hget]
  rfl

theorem withPin_pins_ne (hget : verifier.pins.get x verifier.host = none) :
    (verifier.withPin x der).pins ≠ verifier.pins := by
  intro hsame
  have hpinned : (verifier.withPin x der).pins.get x verifier.host =
      some (sha256Fingerprint x der) := AList.lookup_insert _
  rw [hsame, hget] at hpinned
  cases hpinned

/-- A refused certificate leaves no trace, but for the first use of one whose pin cannot be
saved. -/
theorem forgets_refused_iff (x : Externals) (verifier : CertificateVerifier) (der : List UInt8)
    (caVerified : Bool) (faults : SaveFaults) :
    verifier.ForgetsRefused x der caVerified faults ↔
      caVerified = true ∨ verifier.policy ≠ .trustOnFirstUse ∨
        verifier.pins.get x verifier.host ≠ none ∨ ¬verifier.pins.SaveFails faults := by
  by_cases hfixed : caVerified = true ∨ verifier.policy ≠ .trustOnFirstUse ∨
      verifier.pins.get x verifier.host ≠ none
  · refine iff_of_true (fun error after hverify => ?_) ?_
    · have hself : ∀ again, verifier.verify x der caVerified again =
          ((verifier.verify x der caVerified faults).1, verifier) := verify_fixed hfixed
      obtain ⟨hresult, rfl⟩ := Prod.mk.inj ((hself faults).symm.trans hverify)
      refine ⟨rfl, fun again _ => ⟨error, ?_⟩⟩
      rw [hself again]
      exact hresult
    · rcases hfixed with h | h | h
      · exact .inl h
      · exact .inr (.inl h)
      · exact .inr (.inr (.inl h))
  · simp only [not_or, not_not, Bool.not_eq_true] at hfixed
    obtain ⟨rfl, hpolicy, hget⟩ := hfixed
    have hsave := PinnedCertificates.save_ok_iff (verifier.withPin x der).pins faults
    have hverify := verify_firstUse der hpolicy hget faults
    rw [ForgetsRefused, hverify]
    simp only [Bool.false_eq_true, hpolicy, hget, ne_eq, not_true, false_or]
    constructor
    · intro hforgets hfails
      cases hresult : (verifier.withPin x der).pins.save faults with
      | ok done => exact hsave.mp hresult hfails
      | error error =>
        rw [hresult] at hforgets
        exact withPin_pins_ne hget (hforgets error _ rfl).1
    · intro hok error after heq
      rw [hsave.mpr hok] at heq
      cases heq

def fullDisk : SaveFaults := { SaveFaults.none with write := some "disk full".toList }

def firstVerifier : CertificateVerifier where
  policy := .trustOnFirstUse
  pins := { PinnedCertificates.empty with path := some ⟨"pins.json".toList, none⟩ }
  host := "host".toList

/-- A certificate is refused since its pin cannot be saved, and accepted the next time. -/
theorem refused_certificate_is_pinned :
    ¬firstVerifier.ForgetsRefused certificateExternals firstCertificate false fullDisk ∧
      ((firstVerifier.verify certificateExternals firstCertificate false fullDisk).2.verify
        certificateExternals firstCertificate false fullDisk).1 =
          .ok (.pinned (sha256Fingerprint certificateExternals firstCertificate)) := by
  have hget : firstVerifier.pins.get certificateExternals firstVerifier.host = none := by decide
  have hrefused := verify_firstUse firstCertificate rfl hget fullDisk
  refine ⟨fun hforgets => ?_, ?_⟩
  · exact withPin_pins_ne hget (hforgets _ _ hrefused).1
  · rw [hrefused]
    rfl

end CertificateVerifier

end RemoteDesktopTool
