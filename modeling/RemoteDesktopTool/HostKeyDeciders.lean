import RemoteDesktopTool.HostKeyHandler

namespace RemoteDesktopTool

structure ClientHandler where
  knownHosts : KnownHosts
  host : Text
  port : UInt16
  policy : HostKeyPolicy
  acceptedFingerprint : Option Text
deriving DecidableEq, Repr

namespace ClientHandler

/-- Runs the host key policy. -/
def verifyHostKey (x : Externals) (handler : ClientHandler) (keyType : Text) (key : List UInt8) :
    RdtResult Bool :=
  match handler.knownHosts.check x handler.host handler.port keyType key with
  | .trusted => .ok true
  | .unknown =>
    if handler.policy.autoAcceptsUnknown then .ok true
    else .error ((RdtError.new .hostKeyUnknown ("host key for ".toList ++ handler.host ++
      " is not recorded and the policy is strict".toList)).withContext "fingerprint"
        (fingerprint x key))
  | .changed knownFingerprint knownKeyType =>
    .error ((RdtError.new .hostKeyMismatch ("the host key for ".toList ++ handler.host ++
      " changed; recorded ".toList ++ knownKeyType ++ [' '] ++ knownFingerprint)).withContext
        "fingerprint" (fingerprint x key))
  | .revoked =>
    .error (.new .hostKeyMismatch ("the host key for ".toList ++ handler.host ++
      " has been revoked".toList))
  | .excluded =>
    -- No verdict of `check`: `KnownHosts.check_ne_excluded`.
    .error (.new .hostKeyMismatch ("the host ".toList ++ handler.host ++
      " is excluded by a negated known_hosts pattern".toList))

def cloneForCallback (handler : ClientHandler) : HandlerRef where
  knownHosts := handler.knownHosts
  host := handler.host
  port := handler.port
  policy := handler.policy
  acceptedFingerprint := handler.acceptedFingerprint

def checkServerKey (x : Externals) (handler : ClientHandler) (keyType : Text) (key : List UInt8)
    (user : PromptUser) : KeyCheck :=
  handler.cloneForCallback.checkServerKey x keyType key user

end ClientHandler

variable {x : Externals} {keyType : Text} {key : List UInt8} {user : PromptUser}

/-- The connection goes on, and nobody was asked. -/
def KeyCheck.ContinuesUnasked (out : KeyCheck) : Prop := out.result = .ok true ∧ out.asked = []

namespace HandlerRef

variable {handler : HandlerRef}

theorem asked_of_acceptedByUser (h : AcceptedByUser x handler keyType key user) :
    (handler.checkServerKey x keyType key user).asked ≠ [] := by
  obtain ⟨hpolicy, hunknown, hlistening, hanswer⟩ := h
  have hverify := verifyHostKey_of_not_trusted (not_trusted_of_unknown hunknown)
  have hcalm : HostKeyStatus.unknown.isFatal = false := rfl
  have hstrict : ¬HostKeyPolicy.acceptNew = .strict := HostKeyPolicy.noConfusion
  rcases hanswer with hanswer | hanswer
  · simp only [checkServerKey, hverify, check_of_status hunknown, hcalm, Bool.false_eq_true,
      if_false, hpolicy, hstrict, hlistening, Bool.not_true, hanswer]
    exact List.cons_ne_nil _ _
  · simp only [checkServerKey, hverify, check_of_status hunknown, hcalm, Bool.false_eq_true,
      if_false, hpolicy, hstrict, hlistening, Bool.not_true, hanswer]
    exact List.cons_ne_nil _ _

theorem asked_of_trusted (h : handler.status x keyType key = .trusted) :
    (handler.checkServerKey x keyType key user).asked = [] := by
  have hverify : handler.verifyHostKey x keyType key = .ok true := by
    rw [verifyHostKey, check_of_status h]
  rw [checkServerKey, hverify]

/-- The check goes on unasked for trusted keys only, whatever the policy. -/
theorem continuesUnasked_iff (handler : HandlerRef) (user : PromptUser) :
    (handler.checkServerKey x keyType key user).ContinuesUnasked ↔
      handler.status x keyType key = .trusted := by
  constructor
  · rintro ⟨hresult, hasked⟩
    rcases checkServerKey_outcome x handler keyType key user with
      ⟨htrusted | hyes, _⟩ | ⟨_, ⟨error, herror⟩, _⟩
    · exact htrusted
    · exact absurd hasked (asked_of_acceptedByUser hyes)
    · rw [herror] at hresult
      cases hresult
  · exact fun htrusted => ⟨(checkServerKey_of_trusted htrusted).1, asked_of_trusted htrusted⟩

end HandlerRef

namespace ClientHandler

variable {handler : ClientHandler}

def status (x : Externals) (handler : ClientHandler) (keyType : Text) (key : List UInt8) :
    HostKeyStatus :=
  handler.knownHosts.check x handler.host handler.port keyType key

theorem verifyHostKey_eq_ok_iff (x : Externals) (handler : ClientHandler) (keyType : Text)
    (key : List UInt8) :
    handler.verifyHostKey x keyType key = .ok true ↔
      handler.status x keyType key = .trusted ∨
        handler.policy = .acceptNew ∧ handler.status x keyType key = .unknown := by
  unfold verifyHostKey status
  cases hcheck : handler.knownHosts.check x handler.host handler.port keyType key with
  | trusted => exact ⟨fun _ => Or.inl rfl, fun _ => rfl⟩
  | unknown =>
    cases handler.policy with
    | strict => exact ⟨nofun, nofun⟩
    | acceptNew => exact ⟨fun _ => Or.inr ⟨rfl, rfl⟩, fun _ => rfl⟩
  | changed known knownType => exact ⟨nofun, nofun⟩
  | revoked => exact ⟨nofun, nofun⟩
  | excluded => exact ⟨nofun, nofun⟩

/-- What is promised about a key that a server presents. -/
structure Promised (x : Externals) (handler : ClientHandler) (keyType : Text) (key : List UInt8)
    (user : PromptUser) : Prop where
  agrees : handler.verifyHostKey x keyType key = .ok true ↔
    (handler.checkServerKey x keyType key user).ContinuesUnasked
  records : handler.policy = .acceptNew → handler.status x keyType key = .unknown →
    (handler.checkServerKey x keyType key user).ContinuesUnasked ∧
      ∀ other, other ≠ key → ∃ known knownType,
        (handler.checkServerKey x keyType key user).handler.knownHosts.check x handler.host
          handler.port keyType other = .changed known knownType

/-- The two deciders agree, and new keys are recorded as promised, except for unknown keys under
the policy that is to accept them. -/
theorem promised_iff (x : Externals) (handler : ClientHandler) (keyType : Text)
    (key : List UInt8) (user : PromptUser) :
    handler.Promised x keyType key user ↔
      ¬(handler.policy = .acceptNew ∧ handler.status x keyType key = .unknown) := by
  have hunasked : (handler.checkServerKey x keyType key user).ContinuesUnasked ↔
      handler.status x keyType key = .trusted :=
    HandlerRef.continuesUnasked_iff handler.cloneForCallback user
  constructor
  · rintro hpromised ⟨hpolicy, hunknown⟩
    have htrusted := hunasked.mp (hpromised.records hpolicy hunknown).1
    rw [hunknown] at htrusted
    cases htrusted
  · intro hnot
    refine ⟨?_, fun hpolicy hunknown => absurd ⟨hpolicy, hunknown⟩ hnot⟩
    rw [verifyHostKey_eq_ok_iff, hunasked]
    exact ⟨fun hany => hany.resolve_right hnot, Or.inl⟩

/-- A handler without recorded hosts, that is to accept new keys. -/
def newcomer : ClientHandler :=
  ⟨KnownHosts.empty, "host.example.com".toList, 22, .acceptNew, none⟩

/-- The unknown key passes the one decider, and the other refuses it when nobody listens. -/
theorem deciders_differ :
    ¬ ∀ (handler : ClientHandler) (keyType : Text) (key : List UInt8) (user : PromptUser),
        handler.Promised sampleExternals keyType key user := by
  intro hpromised
  have hresult := ((hpromised newcomer "ssh-ed25519".toList [1, 2, 3] ⟨false, none⟩).agrees.mp
    rfl).1
  cases hresult

end ClientHandler

end RemoteDesktopTool
