import RemoteDesktopTool.KnownHostsFrame

namespace RemoteDesktopTool

open KnownHostEntry

def KnownHostEntry.isAuthority (entry : KnownHostEntry) : Bool := entry.marker = .certAuthority

namespace KnownHosts

variable {x : Externals} {db : KnownHosts} {host : Text} {port : UInt16} {keyType : Text}
  {key : List UInt8} {entries : List KnownHostEntry} {e : KnownHostEntry}

/-- The database without its `@cert-authority` entries. -/
def withoutAuthorities (db : KnownHosts) : KnownHosts :=
  { db with entries := db.entries.filter fun entry => !entry.isAuthority }

theorem not_isAuthority_of_decides (h : decides x host port key e = true) :
    e.isAuthority = false := by
  have hmarker := (decides_iff.mp h).2
  exact decide_eq_false hmarker

/-- A line of a certificate authority says nothing about the key, unless it is the first one with
another key of the type: then the line behind it must record the same key. -/
theorem spares_authorities_iff :
    Spares x isAuthority entries none host port keyType key ↔
      (∃ e, entries.find? (decides x host port key) = some e) ∨
      ∀ e, entries.find? (opposes x host port keyType key) = some e → e.isAuthority = true →
        ∃ e', (entries.filter fun entry => !entry.isAuthority).find?
            (opposes x host port keyType key) = some e' ∧
          fingerprint x e'.key = fingerprint x e.key := by
  have hedited : edited isAuthority entries none = entries.filter fun entry => !entry.isAuthority :=
    List.append_nil _
  simp only [← hedited, find?_edited_iff]
  constructor
  · intro h
    cases hfind : entries.find? (decides x host port key) with
    | some e => exact .inl ⟨e, rfl⟩
    | none => exact .inr (h.opposed hfind)
  · intro h
    refine ⟨fun e hfind hauthority => ?_, fun _ e he => absurd he (Option.not_mem_none e),
      fun hnone => ?_, fun _ _ e he => absurd he (Option.not_mem_none e)⟩
    · rw [not_isAuthority_of_decides (List.find?_some hfind)] at hauthority
      cases hauthority
    · refine h.resolve_left ?_
      rintro ⟨e, hfind⟩
      cases hnone.symm.trans hfind

theorem authorities_are_silent_iff (x : Externals) (db : KnownHosts) (host : Text) (port : UInt16)
    (keyType : Text) (key : List UInt8) :
    db.check x host port keyType key = db.withoutAuthorities.check x host port keyType key ↔
      (∃ e, db.entries.find? (decides x host port key) = some e) ∨
      ∀ e, db.entries.find? (opposes x host port keyType key) = some e → e.isAuthority = true →
        ∃ e', db.withoutAuthorities.entries.find? (opposes x host port keyType key) = some e' ∧
          fingerprint x e'.key = fingerprint x e.key := by
  have hwithout : db.withoutAuthorities.entries = edited isAuthority db.entries none :=
    (List.append_nil _).symm
  rw [eq_comm, check_eq_answer, check_eq_answer, hwithout, answer_edited_iff,
    spares_authorities_iff, ← hwithout]
  rfl

def sampleAuthority : Text := "@cert-authority host ssh-ed25519 AAAA\n".toList

/-- A certificate authority makes the key of a host that is not recorded a changed one. -/
theorem authority_changes_a_key :
    ¬ ∀ (x : Externals) (db : KnownHosts) (host : Text) (port : UInt16) (keyType : Text)
        (key : List UInt8),
        db.check x host port keyType key = db.withoutAuthorities.check x host port keyType key := by
  intro h
  have hcheck := h sampleExternals (parse sampleExternals sampleAuthority) "host".toList 22
    "ssh-ed25519".toList [1, 2, 3]
  revert hcheck
  decide +kernel

end KnownHosts

end RemoteDesktopTool
