import RemoteDesktopTool.PairScan

namespace RemoteDesktopTool

open Masking

section

universe u

variable {τ : Type u} {ch : τ → Char} {mark : List τ}

theorem ScanState.outside_ne_begun (run : Text) (c : Char) (headerStyle : Bool) :
    outside run c ≠ .value headerStyle true true := by
  unfold outside
  repeat' split
  all_goals simp

/-- Behind the start of a hidden value the mark has been written already, and the rest of the
value goes without one. -/
def HidesValue (ch : τ → Char) (mark text : List τ) : Prop :=
  ∀ headerStyle, ∃ w b, text = w ++ b ∧
    Masked mark b (scrubFrom ch mark (.value headerStyle true true) text)

/-- From any other state all of the text is there, but for the values. -/
def ShowsRest (ch : τ → Char) (mark text : List τ) : Prop :=
  ∀ s, (∀ headerStyle, s ≠ .value headerStyle true true) →
    Masked mark text (scrubFrom ch mark s text)

theorem ShowsRest.keep {t : τ} {rest : List τ} (h : ShowsRest ch mark rest) (s : ScanState)
    (hs : ∀ headerStyle, s.step (ch t) ≠ .value headerStyle true true) :
    Masked mark (t :: rest) ([t] ++ scrubFrom ch mark (s.step (ch t)) rest) :=
  (h _ hs).append_left [t]

theorem ShowsRest.endOfValue {t : τ} {rest : List τ} (h : ShowsRest ch mark rest)
    {headerStyle : Bool} (hend : endsValue headerStyle (ch t) = true) (sensitive begun : Bool) :
    Masked mark (t :: rest)
      (scrubFrom ch mark (.value headerStyle sensitive begun) (t :: rest)) := by
  have hstep : ScanState.step (.value headerStyle sensitive begun) (ch t) = .key [] := if_pos hend
  have hnext := h.keep (t := t) (.value headerStyle sensitive begun) (by simp [hstep])
  cases sensitive <;> simpa only [scrubFrom, emit, hend, if_true] using hnext

theorem HidesValue.cons {t : τ} {rest : List τ} (hhidden : HidesValue ch mark rest)
    (hshown : ShowsRest ch mark rest) : HidesValue ch mark (t :: rest) := by
  intro headerStyle
  by_cases hend : endsValue headerStyle (ch t) = true
  · exact ⟨[], t :: rest, rfl, hshown.endOfValue hend true true⟩
  · have hstep : ScanState.step (.value headerStyle true true) (ch t) =
        .value headerStyle true true := if_neg hend
    obtain ⟨w, b, rfl, hmasked⟩ := hhidden headerStyle
    refine ⟨t :: w, b, rfl, ?_⟩
    rw [scrubFrom, hstep]
    simpa [emit, hend] using hmasked

theorem ShowsRest.cons {t : τ} {rest : List τ} (hhidden : HidesValue ch mark rest)
    (hshown : ShowsRest ch mark rest) : ShowsRest ch mark (t :: rest) := by
  intro s hs
  cases s with
  | key run => exact hshown.keep (.key run) (ScanState.outside_ne_begun run (ch t))
  | colon run =>
    refine hshown.keep (.colon run) ?_
    intro headerStyle
    unfold ScanState.step
    dsimp only
    split
    · simp
    · exact ScanState.outside_ne_begun [] (ch t) headerStyle
  | value headerStyle sensitive begun =>
    by_cases hend : endsValue headerStyle (ch t) = true
    · exact hshown.endOfValue hend sensitive begun
    · have hstep : ScanState.step (.value headerStyle sensitive begun) (ch t) =
          .value headerStyle sensitive true := if_neg hend
      rw [scrubFrom]
      cases sensitive with
      | false => exact hshown.keep _ (by simp [hstep])
      | true =>
        cases begun with
        | true => exact absurd rfl (hs headerStyle)
        | false =>
          obtain ⟨w, b, rfl, hmasked⟩ := hhidden headerStyle
          have hcut := Masked.cut [] (t :: w) hmasked
          rw [hstep]
          simpa [emit, hend] using hcut

/-- The pass over the pairs only puts marks in place of values. -/
theorem scrubFrom_masked (text : List τ) : HidesValue ch mark text ∧ ShowsRest ch mark text := by
  induction text with
  | nil => exact ⟨fun _ => ⟨[], [], rfl, Masked.same []⟩, fun _ _ => Masked.same []⟩
  | cons t rest ih =>
    obtain ⟨hhidden, hshown⟩ := ih
    exact ⟨hhidden.cons hshown, .cons hhidden hshown⟩

theorem foldl_redactSecret_of_absent {secrets : List Text} {tokens : List τ}
    (h : ∀ secret ∈ secrets, ¬secret <:+: tokens.map ch) :
    secrets.foldl (redactSecret ch mark) tokens = tokens := by
  induction secrets with
  | nil => rfl
  | cons secret secrets ih =>
    have hsame : redactSecret ch mark tokens secret = tokens := if_neg (h secret (by simp))
    rw [List.foldl_cons, hsame]
    exact ih fun s hs => h s (List.mem_cons_of_mem secret hs)

theorem scrubSensitivePairs_masked (text : List τ) :
    Masked mark text (scrubSensitivePairs ch mark text) := by
  rw [scrubSensitivePairs_eq]
  exact (scrubFrom_masked text).2 _ (by simp)

end

theorem eq_of_append_redacted {front a b : Text} (hfront : '<' ∉ front)
    (h : a ++ redacted ++ b = front ++ redacted) : a = front ∧ b = [] := by
  rw [List.append_assoc] at h
  rcases List.append_eq_append_iff.mp h with ⟨rest, rfl, hrest⟩ | ⟨rest, rfl, hrest⟩
  · cases rest with
    | nil => exact ⟨(List.append_nil a).symm, by simpa using hrest⟩
    | cons c rest =>
      obtain ⟨rfl, _⟩ := List.cons.inj (show '<' :: _ = c :: (rest ++ redacted) from hrest)
      simp at hfront
  · have hlen := congrArg List.length hrest
    simp only [List.length_append] at hlen
    have hrest' : rest = [] := List.length_eq_zero_iff.mp (by omega)
    have hb : b = [] := List.length_eq_zero_iff.mp (by omega)
    exact ⟨by rw [hrest', List.append_nil], hb⟩

/-- One marker is what is left of one secret. -/
theorem eq_of_replaceAll_eq {front pat text : Text} (hfront : '<' ∉ front) (hpat : pat ≠ [])
    (hin : pat <:+: text) (h : replaceAll id redacted pat text = front ++ redacted) :
    text = front ++ pat := by
  rcases replaceAll_cases id redacted hpat text with ⟨hnot, _⟩ | ⟨a, w, b, rfl, hw, _, heq⟩
  · rw [List.map_id] at hnot
    exact absurd hin hnot
  · rw [List.map_id] at hw
    rw [heq] at h
    obtain ⟨rfl, hb⟩ := eq_of_append_redacted hfront h
    have hnil : b = [] := by
      by_contra hne
      exact replaceAll_ne_nil id (by decide) pat hne hb
    rw [hnil, hw, List.append_nil]

namespace Redactor

/-- A secret that no marker can complete: it has neither of the delimiters, and is not a
part of the word between them. -/
def ClearOfMarker (secret : Text) : Prop :=
  '<' ∉ secret ∧ '>' ∉ secret ∧ ¬secret <:+: "redacted".toList

instance : DecidablePred ClearOfMarker := fun _ => inferInstanceAs (Decidable (_ ∧ _ ∧ _))

theorem ClearOfMarker.apart {secret : Text} (h : ClearOfMarker secret) : Apart redacted secret :=
  apart_of_delimited h.1 h.2.1 h.2.2

theorem ClearOfMarker.ne_nil {secret : Text} (h : ClearOfMarker secret) : secret ≠ [] := by
  rintro rfl
  exact h.2.2 List.nil_infix

theorem redactSecret_masked {secret : Text} (hne : secret ≠ []) (text : Text) :
    Masked redacted text (redactSecret id redacted text secret) := by
  unfold redactSecret
  split
  · exact (replaceAll_replaced id redacted hne text).masked
  · exact Masked.same text

theorem redactSecret_removes {secret : Text} (h : ClearOfMarker secret) (text : Text) :
    ¬secret <:+: redactSecret id redacted text secret := by
  have hapart := h.apart
  rw [← List.map_id redacted] at hapart
  unfold redactSecret
  split
  · have hnot := (replaceAll_replaced id redacted h.ne_nil text).absent hapart
    rwa [List.map_id] at hnot
  next hnot => rwa [List.map_id] at hnot

/-- A secret that is gone does not come back, whatever is replaced after it. -/
theorem foldl_keeps_removed {secrets : List Text} (hsecrets : ∀ s ∈ secrets, ClearOfMarker s)
    {secret text : Text} (h : ClearOfMarker secret) (hnot : ¬secret <:+: text) :
    ¬secret <:+: secrets.foldl (redactSecret id redacted) text := by
  induction secrets generalizing text with
  | nil => exact hnot
  | cons s secrets ih =>
    refine ih (fun s' hs' => hsecrets s' (List.mem_cons_of_mem s hs')) ?_
    intro hin
    exact hnot ((redactSecret_masked (hsecrets s (by simp)).ne_nil text).infix_text h.apart hin)

theorem foldl_removes {secrets : List Text} (hsecrets : ∀ s ∈ secrets, ClearOfMarker s)
    (text : Text) : ∀ secret ∈ secrets,
      ¬secret <:+: secrets.foldl (redactSecret id redacted) text := by
  induction secrets generalizing text with
  | nil => simp
  | cons s secrets ih =>
    have hrest := fun s' hs' => hsecrets s' (List.mem_cons_of_mem s hs')
    have hs := hsecrets s (by simp)
    intro secret hmem
    rcases List.mem_cons.mp hmem with rfl | hmem
    · exact foldl_keeps_removed hrest hs (redactSecret_removes hs text)
    · exact ih hrest _ secret hmem

theorem new_withSecret {secret : Text} (hlen : 4 ≤ secret.byteLen) :
    (new.withSecret secret).secrets = [secret] := by
  have hnew : 4 ≤ secret.byteLen ∧ secret ∉ new.secrets := ⟨hlen, List.not_mem_nil⟩
  rw [withSecret, dif_pos hnew]
  rfl

def withSecrets (secrets : List Text) : Redactor := secrets.foldl withSecret new

theorem mem_withSecret (r : Redactor) (secret s : Text) :
    s ∈ (r.withSecret secret).secrets ↔ s ∈ r.secrets ∨ s = secret ∧ 4 ≤ secret.byteLen := by
  unfold withSecret
  split
  next h => simp [h.1]
  next h =>
    constructor
    · exact Or.inl
    · rintro (hs | ⟨rfl, hlen⟩)
      · exact hs
      · by_contra hnot
        exact h ⟨hlen, hnot⟩

theorem mem_withSecrets (secrets : List Text) (s : Text) :
    s ∈ (withSecrets secrets).secrets ↔ s ∈ secrets ∧ 4 ≤ s.byteLen := by
  have hfold : ∀ r : Redactor, s ∈ (secrets.foldl withSecret r).secrets ↔
      s ∈ r.secrets ∨ s ∈ secrets ∧ 4 ≤ s.byteLen := by
    induction secrets with
    | nil => simp
    | cons secret secrets ih =>
      intro r
      rw [List.foldl_cons, ih, mem_withSecret, List.mem_cons, or_assoc, or_and_right]
      by_cases hs : s = secret
      · subst hs
        simp
      · simp [hs]
  have hnone : s ∉ new.secrets := List.not_mem_nil
  rw [withSecrets, hfold]
  simp [hnone]

theorem mem_redact {r : Redactor} {text : Text} {c : Char} (h : c ∈ r.redact text) :
    c ∈ redacted ∨ c ∈ text := by
  have hfold : ∀ (secrets : List Text) (text : Text), (∀ secret ∈ secrets, secret ≠ []) →
      c ∈ secrets.foldl (redactSecret id redacted) text → c ∈ redacted ∨ c ∈ text := by
    intro secrets
    induction secrets with
    | nil => exact fun text _ hmem => Or.inr hmem
    | cons secret secrets ih =>
      intro text hne hmem
      rcases ih _ (fun s hs => hne s (List.mem_cons_of_mem secret hs)) hmem with hmem | hmem
      · exact Or.inl hmem
      · exact (redactSecret_masked (hne secret List.mem_cons_self) text).mem hmem
  have hne : ∀ secret ∈ r.secrets, secret ≠ [] := by
    rintro secret hmem rfl
    exact absurd (r.byteLen_ge [] hmem) (by decide)
  rcases (scrubSensitivePairs_masked _).mem h with hmem | hmem
  · exact Or.inl hmem
  · exact hfold r.secrets text hne hmem

theorem not_infix_redact (r : Redactor) (hclear : ∀ secret ∈ r.secrets, ClearOfMarker secret)
    (text : Text) : ∀ secret ∈ r.secrets, ¬secret <:+: r.redact text := by
  intro secret hmem hin
  have hleft := (scrubSensitivePairs_masked _).infix_text (hclear secret hmem).apart hin
  exact foldl_removes hclear text secret hmem hleft

/-- No registered secret is left in what the redactor returns: later replacements, and the
pass over the pairs, do not put one together again. -/
theorem redact_removes_secrets (secrets : List Text)
    (hclear : ∀ secret ∈ (withSecrets secrets).secrets, ClearOfMarker secret) (text : Text) :
    ∀ secret ∈ secrets, 4 ≤ secret.byteLen → ¬secret <:+: (withSecrets secrets).redact text := by
  intro secret hmem hlen
  have hregistered := (mem_withSecrets secrets secret).mpr ⟨hmem, hlen⟩
  exact (withSecrets secrets).not_infix_redact hclear text secret hregistered

/-- Two overlapping secrets, and one too short to be registered. -/
def overlappingSecrets : List Text := ["hunter2", "2hunt", "abc"].map String.toList

theorem redact_removes_overlapping :
    ¬"hunter2".toList <:+: (withSecrets overlappingSecrets).redact "pin=hunter2hunter2 abc".toList ∧
      ¬"2hunt".toList <:+:
        (withSecrets overlappingSecrets).redact "pin=hunter2hunter2 abc".toList :=
  ⟨redact_removes_secrets overlappingSecrets (by decide) _ _ (by decide) (by decide),
    redact_removes_secrets overlappingSecrets (by decide) _ _ (by decide) (by decide)⟩

end Redactor

end RemoteDesktopTool
