import RemoteDesktopTool.ScrubbedPairs

namespace RemoteDesktopTool

namespace Redactor

theorem scrubSensitivePairs_fixed (text : Text) :
    scrubSensitivePairs id redacted (scrubSensitivePairs id redacted text) =
      scrubSensitivePairs id redacted text := by
  have hinside : ∀ c ∈ redacted, ∀ headerStyle, endsValue headerStyle c = false := by
    intro c hc headerStyle
    have hall : redacted.all (fun c => !endsValue headerStyle c) = true := by
      cases headerStyle <;> decide
    simpa using List.all_eq_true.mp hall c hc
  rw [scrubSensitivePairs_eq (scrubSensitivePairs id redacted text)]
  exact (scrubSensitivePairs_scrubs text).fixed (by decide) hinside

/-- The second time no secret is left to be replaced, and the pairs are found where they were,
with the marker for a value. -/
theorem redact_redact (secrets : List Text)
    (hclear : ∀ secret ∈ (withSecrets secrets).secrets, ClearOfMarker secret) (text : Text) :
    (withSecrets secrets).redact ((withSecrets secrets).redact text) =
      (withSecrets secrets).redact text := by
  have habsent : ∀ secret ∈ (withSecrets secrets).secrets,
      ¬secret <:+: ((withSecrets secrets).redact text).map id := by
    rw [List.map_id]
    exact (withSecrets secrets).not_infix_redact hclear text
  have hliteral : (withSecrets secrets).secrets.foldl (redactSecret id redacted)
      ((withSecrets secrets).redact text) = (withSecrets secrets).redact text :=
    foldl_redactSecret_of_absent habsent
  calc (withSecrets secrets).redact ((withSecrets secrets).redact text)
      = scrubSensitivePairs id redacted ((withSecrets secrets).redact text) :=
        congrArg (scrubSensitivePairs id redacted) hliteral
    _ = (withSecrets secrets).redact text := scrubSensitivePairs_fixed _

theorem redact_redact_overlapping :
    (withSecrets overlappingSecrets).redact
        ((withSecrets overlappingSecrets).redact "pin=hunter2hunter2 abc".toList) =
      (withSecrets overlappingSecrets).redact "pin=hunter2hunter2 abc".toList :=
  redact_redact overlappingSecrets (by decide) _

end Redactor

end RemoteDesktopTool
