import Mathlib.Algebra.Group.Nat.Defs
import RemoteDesktopTool.Errors
import RemoteDesktopTool.Overflow

namespace RemoteDesktopTool

open Overflow

structure ReconnectPolicy where
  enabled : Bool
  maxAttempts : UInt32
  initialBackoffSecs : UInt64
  maxBackoffSecs : UInt64
deriving DecidableEq, Repr

namespace ReconnectPolicy

def standard : ReconnectPolicy := ⟨true, 5, 2, 60⟩

def validate (policy : ReconnectPolicy) : RdtResult Unit :=
  if policy.initialBackoffSecs = 0 then
    .error (.new .invalidInput "reconnect initial backoff must be at least one second".toList)
  else if policy.maxBackoffSecs < policy.initialBackoffSecs then
    .error (.new .invalidInput "reconnect max backoff must be >= initial backoff".toList)
  else .ok ()

/-- In seconds. The outer `none` is an overflow that stops the build. -/
def delayFor (build : Build) (policy : ReconnectPolicy) (attempt : UInt32) :
    Option (Option UInt64) :=
  if !policy.enabled || attempt = 0 then some none
  else if 0 < policy.maxAttempts && policy.maxAttempts < attempt then some none
  else do
    let exp := min (attempt.toNat - 1) 6
    let base := min (saturatingMul policy.initialBackoffSecs (.ofNat (2 ^ exp)))
      (max policy.maxBackoffSecs policy.initialBackoffSecs)
    let jitter ← u64 build ((base / 4).toNat * (attempt.toNat % 4))
    let delayed ← u64 build (base.toNat + jitter.toNat)
    some (some (min delayed (max policy.maxBackoffSecs base)))

/-- The documented base of a delay. -/
def baseDelay (policy : ReconnectPolicy) (attempt : UInt32) : Nat :=
  min (policy.initialBackoffSecs.toNat * 2 ^ min (attempt.toNat - 1) 6) policy.maxBackoffSecs.toNat

/-- The base with its jitter, before any bound is put on it. -/
def jittered (policy : ReconnectPolicy) (attempt : UInt32) : Nat :=
  policy.baseDelay attempt + policy.baseDelay attempt / 4 * (attempt.toNat % 4)

variable {policy : ReconnectPolicy} {attempt : UInt32} {build : Build} {d : UInt64}

theorem validate_ok_iff : policy.validate = .ok () ↔
    0 < policy.initialBackoffSecs.toNat ∧
      policy.initialBackoffSecs.toNat ≤ policy.maxBackoffSecs.toNat := by
  unfold validate
  split
  next hzero => simp [hzero]
  next hzero =>
    have hpos : policy.initialBackoffSecs.toNat ≠ 0 := fun h =>
      hzero (UInt64.toNat_inj.mp h)
    split
    next hlt =>
      have hlt' : policy.maxBackoffSecs.toNat < policy.initialBackoffSecs.toNat := hlt
      refine iff_of_false (fun h => by cases h) (fun h => ?_)
      omega
    next hle =>
      have hle' : ¬policy.maxBackoffSecs.toNat < policy.initialBackoffSecs.toNat := hle
      exact iff_of_true rfl ⟨by omega, by omega⟩

end ReconnectPolicy

end RemoteDesktopTool
