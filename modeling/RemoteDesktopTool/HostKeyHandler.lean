import RemoteDesktopTool.HostKeyVerdict

namespace RemoteDesktopTool

inductive HostKeyPolicy
  | strict
  | acceptNew
deriving DecidableEq, Repr

/-- Whether an unknown key may be accepted without a human decision. -/
def HostKeyPolicy.autoAcceptsUnknown (policy : HostKeyPolicy) : Bool := policy == .acceptNew

inductive HostKeyDecision
  | acceptOnce
  | acceptAndSave
  | reject
deriving DecidableEq, Repr

structure UnknownHostKey where
  host : Text
  port : UInt16
  keyType : Text
  fingerprint : Text
deriving DecidableEq, Repr

/-- The other end of the prompt channel: whether anyone listens, and what is answered; a
dropped reply channel gives no answer. -/
structure PromptUser where
  listening : Bool
  answer : Option HostKeyDecision
deriving DecidableEq, Repr

structure HandlerRef where
  knownHosts : KnownHosts
  host : Text
  port : UInt16
  policy : HostKeyPolicy
  acceptedFingerprint : Option Text
deriving DecidableEq, Repr

structure KeyCheck where
  result : RdtResult Bool
  handler : HandlerRef
  asked : List UnknownHostKey

namespace HandlerRef

def verifyHostKey (x : Externals) (handler : HandlerRef) (keyType : Text) (key : List UInt8) :
    RdtResult Bool :=
  match handler.knownHosts.check x handler.host handler.port keyType key with
  | .trusted => .ok true
  | _ => .error (.new .hostKeyUnknown "not trusted".toList)

/-- Records a key the user accepted; that it cannot be written to the file is only logged. -/
def rememberHostKey (x : Externals) (handler : HandlerRef) (keyType : Text) (key : List UInt8) :
    HandlerRef :=
  { handler with
    knownHosts :=
      handler.knownHosts.accept x handler.host handler.port keyType key handler.host }

def setAcceptedFingerprint (handler : HandlerRef) (digest : Text) : HandlerRef :=
  { handler with acceptedFingerprint := some digest }

/-- `keyType` and `key` are what the SSH library hands out for the key the server presents. -/
def checkServerKey (x : Externals) (handler : HandlerRef) (keyType : Text) (key : List UInt8)
    (user : PromptUser) : KeyCheck :=
  let digest := fingerprint x key
  match handler.verifyHostKey x keyType key with
  | .ok true => ⟨.ok true, handler.setAcceptedFingerprint digest, []⟩
  | _ =>
    let status := handler.knownHosts.check x handler.host handler.port keyType key
    if status.isFatal then
      ⟨.error (.new .hostKeyMismatch ("host key verification failed for ".toList ++ handler.host ++
        ": ".toList ++ status.toText)), handler, []⟩
    else if handler.policy = .strict then
      ⟨.error (.new .hostKeyUnknown ("host key for ".toList ++ handler.host ++
        " is unknown and the policy is strict".toList)), handler, []⟩
    else
      let prompt : UnknownHostKey := ⟨handler.host, handler.port, keyType, digest⟩
      if !user.listening then
        ⟨.error (.new .hostKeyUnknown
          "no user interface is available to confirm the host key".toList), handler, []⟩
      else
        match user.answer with
        | some .acceptAndSave =>
          ⟨.ok true, (handler.rememberHostKey x keyType key).setAcceptedFingerprint digest,
            [prompt]⟩
        | some .acceptOnce => ⟨.ok true, handler.setAcceptedFingerprint digest, [prompt]⟩
        | some .reject | none =>
          ⟨.error (.new .hostKeyUnknown "the host key was rejected".toList), handler, [prompt]⟩

variable {x : Externals} {handler : HandlerRef} {keyType : Text} {key : List UInt8}
  {user : PromptUser}

def status (x : Externals) (handler : HandlerRef) (keyType : Text) (key : List UInt8) :
    HostKeyStatus :=
  handler.knownHosts.check x handler.host handler.port keyType key

def AcceptedByUser (x : Externals) (handler : HandlerRef) (keyType : Text) (key : List UInt8)
    (user : PromptUser) : Prop :=
  handler.policy = .acceptNew ∧ handler.status x keyType key = .unknown ∧ user.listening = true ∧
    (user.answer = some .acceptOnce ∨ user.answer = some .acceptAndSave)

/-- The connection goes on, and the fingerprint of the key is recorded. -/
def Accepts (x : Externals) (key : List UInt8) (out : KeyCheck) : Prop :=
  out.result = .ok true ∧ out.handler.acceptedFingerprint = some (fingerprint x key)

/-- The connection is refused, and no fingerprint is recorded. -/
def Refuses (handler : HandlerRef) (out : KeyCheck) : Prop :=
  (∃ error, out.result = .error error) ∧
    out.handler.acceptedFingerprint = handler.acceptedFingerprint

theorem checkServerKey_of_trusted (h : handler.status x keyType key = .trusted) :
    Accepts x key (handler.checkServerKey x keyType key user) := by
  have hverify : handler.verifyHostKey x keyType key = .ok true := by
    unfold status at h
    rw [verifyHostKey, h]
  rw [checkServerKey, hverify]
  exact ⟨rfl, rfl⟩

theorem verifyHostKey_of_not_trusted (h : handler.status x keyType key ≠ .trusted) :
    handler.verifyHostKey x keyType key = .error (.new .hostKeyUnknown "not trusted".toList) := by
  unfold verifyHostKey
  split
  next htrusted => exact absurd htrusted h
  next => rfl

theorem checkServerKey_of_fatal (h : (handler.status x keyType key).isFatal = true) :
    Refuses handler (handler.checkServerKey x keyType key user) := by
  have hnot : handler.status x keyType key ≠ .trusted := by
    intro htrusted
    rw [htrusted] at h
    cases h
  have hfatal : (handler.knownHosts.check x handler.host handler.port keyType key).isFatal = true :=
    h
  simp only [checkServerKey, verifyHostKey_of_not_trusted hnot, hfatal, if_true]
  exact ⟨⟨_, rfl⟩, rfl⟩

theorem check_of_status {verdict : HostKeyStatus} (h : handler.status x keyType key = verdict) :
    handler.knownHosts.check x handler.host handler.port keyType key = verdict := h

theorem not_trusted_of_unknown (h : handler.status x keyType key = .unknown) :
    handler.status x keyType key ≠ .trusted := by
  rw [h]
  exact HostKeyStatus.noConfusion

theorem checkServerKey_of_strict (h : handler.status x keyType key = .unknown)
    (hpolicy : handler.policy = .strict) :
    Refuses handler (handler.checkServerKey x keyType key user) := by
  have hverify := verifyHostKey_of_not_trusted (not_trusted_of_unknown h)
  have hfatal : HostKeyStatus.unknown.isFatal = false := rfl
  simp only [checkServerKey, hverify, check_of_status h, hfatal, Bool.false_eq_true, if_false,
    hpolicy, if_true]
  exact ⟨⟨_, rfl⟩, rfl⟩

theorem checkServerKey_of_unheard (h : handler.status x keyType key = .unknown)
    (hpolicy : handler.policy ≠ .strict) (hlistening : user.listening = false) :
    Refuses handler (handler.checkServerKey x keyType key user) := by
  have hverify := verifyHostKey_of_not_trusted (not_trusted_of_unknown h)
  have hfatal : HostKeyStatus.unknown.isFatal = false := rfl
  simp only [checkServerKey, hverify, check_of_status h, hfatal, Bool.false_eq_true, if_false,
    hpolicy, hlistening, Bool.not_false, if_true]
  exact ⟨⟨_, rfl⟩, rfl⟩

/-- The user is asked, and the answer decides. -/
theorem checkServerKey_of_asked (h : handler.status x keyType key = .unknown)
    (hpolicy : handler.policy ≠ .strict) (hlistening : user.listening = true) :
    (user.answer = some .acceptOnce ∨ user.answer = some .acceptAndSave) ∧
        Accepts x key (handler.checkServerKey x keyType key user) ∨
      ¬(user.answer = some .acceptOnce ∨ user.answer = some .acceptAndSave) ∧
        Refuses handler (handler.checkServerKey x keyType key user) := by
  have hverify := verifyHostKey_of_not_trusted (not_trusted_of_unknown h)
  have hfatal : HostKeyStatus.unknown.isFatal = false := rfl
  simp only [checkServerKey, hverify, check_of_status h, hfatal, Bool.false_eq_true, if_false,
    hpolicy, hlistening, Bool.not_true]
  cases user.answer with
  | none => exact Or.inr ⟨by simp, ⟨_, rfl⟩, rfl⟩
  | some decision =>
    cases decision with
    | acceptOnce => exact Or.inl ⟨Or.inl rfl, rfl, rfl⟩
    | acceptAndSave => exact Or.inl ⟨Or.inr rfl, rfl, rfl⟩
    | reject => exact Or.inr ⟨by simp, ⟨_, rfl⟩, rfl⟩

theorem checkServerKey_of_unknown (user : PromptUser)
    (h : handler.status x keyType key = .unknown) :
    AcceptedByUser x handler keyType key user ∧
        Accepts x key (handler.checkServerKey x keyType key user) ∨
      ¬AcceptedByUser x handler keyType key user ∧
        Refuses handler (handler.checkServerKey x keyType key user) := by
  by_cases hpolicy : handler.policy = .strict
  · refine Or.inr ⟨?_, checkServerKey_of_strict h hpolicy⟩
    rintro ⟨hnew, _⟩
    rw [hnew] at hpolicy
    cases hpolicy
  have hnew : handler.policy = .acceptNew := by
    cases hp : handler.policy with
    | strict => exact absurd hp hpolicy
    | acceptNew => rfl
  cases hlistening : user.listening with
  | false =>
    refine Or.inr ⟨?_, checkServerKey_of_unheard h hpolicy hlistening⟩
    rintro ⟨_, _, hheard, _⟩
    rw [hlistening] at hheard
    cases hheard
  | true =>
    rcases checkServerKey_of_asked h hpolicy hlistening with ⟨hyes, haccepts⟩ | ⟨hno, hrefuses⟩
    · exact Or.inl ⟨⟨hnew, h, hlistening, hyes⟩, haccepts⟩
    · exact Or.inr ⟨fun hok => hno hok.2.2.2, hrefuses⟩

theorem trusted_or_unknown {status : HostKeyStatus} (h : status.isFatal = false) :
    status = .trusted ∨ status = .unknown := by
  cases status with
  | trusted => exact Or.inl rfl
  | unknown => exact Or.inr rfl
  | changed known knownType => cases h
  | revoked => cases h
  | excluded => cases h

theorem checkServerKey_outcome (x : Externals) (handler : HandlerRef) (keyType : Text)
    (key : List UInt8) (user : PromptUser) :
    (handler.status x keyType key = .trusted ∨ AcceptedByUser x handler keyType key user) ∧
        Accepts x key (handler.checkServerKey x keyType key user) ∨
      ¬(handler.status x keyType key = .trusted ∨ AcceptedByUser x handler keyType key user) ∧
        Refuses handler (handler.checkServerKey x keyType key user) := by
  cases hfatal : (handler.status x keyType key).isFatal with
  | true =>
    refine Or.inr ⟨?_, checkServerKey_of_fatal hfatal⟩
    rintro (htrusted | ⟨_, hunknown, _⟩)
    · rw [htrusted] at hfatal
      cases hfatal
    · rw [hunknown] at hfatal
      cases hfatal
  | false =>
    rcases trusted_or_unknown hfatal with htrusted | hunknown
    · exact Or.inl ⟨Or.inl htrusted, checkServerKey_of_trusted htrusted⟩
    · rcases checkServerKey_of_unknown user hunknown with ⟨hok, haccepts⟩ | ⟨hok, hrefuses⟩
      · exact Or.inl ⟨Or.inr hok, haccepts⟩
      · refine Or.inr ⟨?_, hrefuses⟩
        rintro (htrusted | hyes)
        · exact not_trusted_of_unknown hunknown htrusted
        · exact hok hyes

/-- The connection goes on exactly for a trusted key, or for an unknown one that the policy
allows to ask about and the user accepts; a changed or revoked key is refused whatever the
policy and the answer, and the fingerprint is recorded exactly for a key that is accepted. -/
theorem checkServerKey_continues_iff (x : Externals) (handler : HandlerRef) (keyType : Text)
    (key : List UInt8) (user : PromptUser) :
    ((handler.checkServerKey x keyType key user).result = .ok true ↔
        handler.status x keyType key = .trusted ∨ AcceptedByUser x handler keyType key user) ∧
      ((handler.status x keyType key).isFatal = true →
        ∃ error, (handler.checkServerKey x keyType key user).result = .error error) ∧
      ((handler.checkServerKey x keyType key user).result = .ok true →
        (handler.checkServerKey x keyType key user).handler.acceptedFingerprint =
          some (fingerprint x key)) ∧
      ((handler.checkServerKey x keyType key user).result ≠ .ok true →
        (handler.checkServerKey x keyType key user).handler.acceptedFingerprint =
          handler.acceptedFingerprint) := by
  refine ⟨?_, fun hf => (checkServerKey_of_fatal hf).1, ?_, ?_⟩
  all_goals
    rcases checkServerKey_outcome x handler keyType key user with
      ⟨hyes, hresult, hprint⟩ | ⟨hno, ⟨error, hresult⟩, hprint⟩
  · exact ⟨fun _ => hyes, fun _ => hresult⟩
  · refine ⟨fun hok => ?_, fun hyes => absurd hyes hno⟩
    rw [hresult] at hok
    cases hok
  · exact fun _ => hprint
  · intro hok
    rw [hresult] at hok
    cases hok
  · exact fun hnot => absurd hresult hnot
  · exact fun _ => hprint

end HandlerRef

end RemoteDesktopTool
