import RemoteDesktopTool.RedactSecrets

namespace RemoteDesktopTool

section

universe u

variable {τ : Type u} {ch : τ → Char} {mark : List τ}

/-- What the pass does to a text that is read from a state: it keeps a token, or hides the
whole value of a sensitive pair behind one mark. -/
inductive Scrubs (ch : τ → Char) (mark : List τ) : ScanState → List τ → List τ → Prop
  | done (s : ScanState) : Scrubs ch mark s [] []
  | keep {s : ScanState} {t : τ} {rest out : List τ}
    (hkept : ∀ headerStyle begun, s = .value headerStyle true begun →
      endsValue headerStyle (ch t) = true)
    (h : Scrubs ch mark (s.step (ch t)) rest out) : Scrubs ch mark s (t :: rest) (t :: out)
  | hide {headerStyle : Bool} {v rest out : List τ} (hne : v ≠ [])
    (hv : ∀ t ∈ v, endsValue headerStyle (ch t) = false)
    (hend : ∀ t ∈ rest.head?, endsValue headerStyle (ch t) = true)
    (h : Scrubs ch mark (.value headerStyle true true) rest out) :
    Scrubs ch mark (.value headerStyle true false) (v ++ rest) (mark ++ out)

/-- No part of a hidden value is left to be read. -/
def BehindValue (ch : τ → Char) (s : ScanState) (text : List τ) : Prop :=
  ∀ headerStyle, s = .value headerStyle true true →
    ∀ t ∈ text.head?, endsValue headerStyle (ch t) = true

theorem ScanState.step_eq_begun {s : ScanState} {c : Char} {headerStyle sensitive : Bool}
    (h : s.step c = .value headerStyle sensitive true) :
    (∃ begun, s = .value headerStyle sensitive begun) ∧ endsValue headerStyle c = false := by
  have houtside : ∀ run, outside run c ≠ .value headerStyle sensitive true := by
    intro run
    unfold outside
    repeat' split
    all_goals simp
  cases s with
  | key run => exact absurd h (houtside run)
  | colon run =>
    unfold step at h
    dsimp only at h
    split at h
    · simp at h
    · exact absurd h (houtside [])
  | value header sens begun =>
    unfold step at h
    dsimp only at h
    split at h
    · cases h
    next hgoes =>
      obtain ⟨rfl, rfl, _⟩ := ScanState.value.inj h
      exact ⟨⟨begun, rfl⟩, by simpa using hgoes⟩

theorem emit_kept {s : ScanState} {t : τ}
    (h : ∀ headerStyle begun, s = .value headerStyle true begun →
      endsValue headerStyle (ch t) = true) : emit ch mark s t = [t] := by
  unfold emit
  split
  next headerStyle begun => rw [if_pos (h headerStyle begun rfl)]
  next => rfl

theorem scrubFrom_scrubs {s : ScanState} {text : List τ} (hs : BehindValue ch s text) :
    Scrubs ch mark s text (scrubFrom ch mark s text) := by
  induction hn : text.length using Nat.strongRecOn generalizing s text with
  | ind n ih =>
    cases text with
    | nil => exact .done s
    | cons t rest =>
      by_cases hkept : ∀ headerStyle begun, s = .value headerStyle true begun →
          endsValue headerStyle (ch t) = true
      · have hbehind : BehindValue ch (s.step (ch t)) rest := by
          intro headerStyle hstep
          obtain ⟨⟨begun, hvalue⟩, hgoes⟩ := ScanState.step_eq_begun hstep
          rw [hkept headerStyle begun hvalue] at hgoes
          cases hgoes
        rw [scrubFrom, emit_kept hkept]
        exact .keep hkept (ih rest.length (by simp [← hn]) hbehind rfl)
      · push Not at hkept
        obtain ⟨headerStyle, begun, rfl, hgoes⟩ := hkept
        cases begun with
        | true => exact absurd (hs headerStyle rfl t rfl) hgoes
        | false =>
          obtain ⟨hsplit, hinside, hend⟩ := valueAt_split ch headerStyle (t :: rest)
          have hne : valueAt ch headerStyle (t :: rest) ≠ [] := by
            simp [valueAt, Bool.eq_false_iff.mpr hgoes]
          have hlen :
              ((t :: rest).drop (valueAt ch headerStyle (t :: rest)).length).length < n := by
            have hpos := List.length_pos_of_ne_nil hne
            rw [← hn, List.length_drop, List.length_cons]
            omega
          have hhide := Scrubs.hide hne hinside hend
            (ih _ hlen (fun headerStyle' h => by cases h; exact hend) rfl)
          rw [hsplit] at hhide
          have hbegun : (valueAt ch headerStyle (t :: rest)).isEmpty = false := by simpa using hne
          rw [scrubFrom_value_split, hbegun]
          exact hhide

/-- Read in its place, a text that has been scrubbed is left as it is. -/
theorem Scrubs.fixed {s : ScanState} {text out : List τ} (h : Scrubs ch mark s text out)
    (hmark : mark ≠ [])
    (hinside : ∀ t ∈ mark, ∀ headerStyle, endsValue headerStyle (ch t) = false) :
    scrubFrom ch mark s out = out := by
  induction h with
  | done s => rfl
  | keep hkept h ih => rw [scrubFrom, emit_kept hkept, ih, List.singleton_append]
  | @hide headerStyle v rest out hne hv hend h ih =>
    have hgoes : ∀ t ∈ mark, endsValue headerStyle (ch t) = false :=
      fun t ht => hinside t ht headerStyle
    have hmap : ∀ c ∈ mark.map ch, endsValue headerStyle c = false := by simpa using hgoes
    have hbegun : mark.isEmpty = false := by simpa using hmark
    have hbegun' : (mark.map ch).isEmpty = false := by simpa using hmark
    rw [scrubFrom_append, scrubFrom_value hgoes, ScanState.foldl_step_value hmap, hbegun, hbegun']
    exact congrArg (mark ++ ·) ih

end

def separatorText (headerStyle : Bool) : Text := if headerStyle then [':', ' '] else ['=']

namespace ScanState

/-- What stands in front of the index in each state of the scan. -/
def Describes (front : Text) : ScanState → Prop
  | key run => keyBefore id front = run
  | colon run => ∃ before, front = before ++ [':'] ∧ keyBefore id before = run
  | value headerStyle sensitive begun => begun = false →
    ∃ before, front = before ++ separatorText headerStyle ∧
      isSensitive (keyBefore id before) = sensitive

theorem describes_outside {front run : Text} (h : keyBefore id front = run) (c : Char) :
    Describes (front ++ [c]) (outside run c) := by
  unfold outside
  by_cases heq : c = '='
  · rw [if_pos heq, heq]
    exact fun _ => ⟨front, rfl, by rw [h]⟩
  · rw [if_neg heq]
    by_cases hcolon : c = ':'
    · rw [if_pos hcolon, hcolon]
      exact ⟨front, rfl, h⟩
    · rw [if_neg hcolon]
      have hconcat : keyBefore id (front ++ [c]) = _ := keyBefore_concat front c
      by_cases hkey : isKeyChar c = true
      · rw [if_pos hkey]
        simpa [Describes, hkey, h] using hconcat
      · rw [if_neg hkey]
        simpa [Describes, hkey] using hconcat

theorem Describes.step {front : Text} {s : ScanState} (h : Describes front s) (c : Char) :
    Describes (front ++ [c]) (s.step c) := by
  cases s with
  | key run => exact describes_outside h c
  | colon run =>
    obtain ⟨before, rfl, hrun⟩ := h
    unfold ScanState.step
    dsimp only
    split
    next hspace =>
      rw [hspace, ← hrun]
      exact fun _ => ⟨before, by simp [separatorText], rfl⟩
    next => exact describes_outside (by rw [keyBefore_concat]; rfl) c
  | value headerStyle sensitive begun =>
    unfold ScanState.step
    dsimp only
    split
    next hend =>
      show keyBefore id (front ++ [c]) = []
      rw [keyBefore_concat]
      simp [isKeyChar_of_endsValue hend]
    next => exact fun hbegun => by cases hbegun

theorem describes_after (text : Text) : Describes text (after text) := by
  induction text using List.reverseRecOn with
  | nil => rfl
  | append_singleton text c ih =>
    rw [after_append]
    exact ih.step c

end ScanState

def IsSensitiveKey (key : Text) : Prop :=
  ∃ candidate ∈ sensitiveKeys, key.eqIgnoreAsciiCase candidate = true

def EndsInSensitiveKey (key : Text) : Prop := ∃ candidate ∈ sensitiveKeys, candidate <:+ key

theorem isSensitive_iff (key : Text) :
    isSensitive key = true ↔ IsSensitiveKey key ∨ EndsInSensitiveKey key := by
  simp only [isSensitive, List.any_eq_true, Bool.or_eq_true, List.isSuffixOf_iff_suffix]
  constructor
  · rintro ⟨candidate, hmem, h | h⟩
    · exact Or.inl ⟨candidate, hmem, h⟩
    · exact Or.inr ⟨candidate, hmem, h⟩
  · rintro (⟨candidate, hmem, h⟩ | ⟨candidate, hmem, h⟩)
    · exact ⟨candidate, hmem, Or.inl h⟩
    · exact ⟨candidate, hmem, Or.inr h⟩

/-- The text ends in a separator behind a run of identifier characters that passes the test for
sensitive keys. -/
def OpensValue (headerStyle : Bool) (front : Text) : Prop :=
  ∃ before, front = before ++ separatorText headerStyle ∧
    isSensitive (keyBefore id before) = true

instance (headerStyle : Bool) (front : Text) : Decidable (OpensValue headerStyle front) :=
  decidable_of_iff (separatorText headerStyle <:+ front ∧ isSensitive
    (keyBefore id (front.take (front.length - (separatorText headerStyle).length))) = true) (by
      constructor
      · rintro ⟨⟨before, rfl⟩, hkey⟩
        exact ⟨before, rfl, by simpa using hkey⟩
      · rintro ⟨before, rfl, hkey⟩
        exact ⟨⟨before, rfl⟩, by simpa using hkey⟩)

/-- A text behind `front` with whole values of sensitive pairs replaced by the marker, and
everything else kept. -/
inductive ValuesMasked : Text → Text → Text → Prop
  | same (front text : Text) : ValuesMasked front text text
  | cut {front : Text} (a v : Text) {headerStyle : Bool} {b out : Text}
    (hopens : OpensValue headerStyle (front ++ a)) (hne : v ≠ [])
    (hv : ∀ c ∈ v, endsValue headerStyle c = false)
    (hend : ∀ c ∈ b.head?, endsValue headerStyle c = true)
    (h : ValuesMasked (front ++ a ++ v) b out) :
    ValuesMasked front (a ++ v ++ b) (a ++ redacted ++ out)

theorem ValuesMasked.keep {front text out : Text} {c : Char}
    (h : ValuesMasked (front ++ [c]) text out) : ValuesMasked front (c :: text) (c :: out) := by
  cases h with
  | same => exact .same front _
  | cut a v hopens hne hv hend h =>
    have hfront : front ++ [c] ++ a = front ++ c :: a := by simp
    rw [hfront] at hopens h
    exact .cut (c :: a) v hopens hne hv hend h

theorem Scrubs.valuesMasked {s : ScanState} {text out : Text} (h : Scrubs id redacted s text out)
    {front : Text} (hs : s.Describes front) : ValuesMasked front text out := by
  induction h generalizing front with
  | done s => exact .same front []
  | keep hkept h ih => exact (ih (hs.step _)).keep
  | hide hne hv hend h ih =>
    have hopens := hs rfl
    rw [← List.append_nil front] at hopens
    exact .cut [] _ hopens hne hv hend (ih fun hbegun => by cases hbegun)

theorem ValuesMasked.eq_of_no_key {front text out : Text} (h : ValuesMasked front text out)
    (hnone : ∀ headerStyle a, OpensValue headerStyle (front ++ a) → ¬a <+: text) : out = text := by
  cases h with
  | same => rfl
  | cut a v hopens hne hv hend h =>
    refine absurd ?_ (hnone _ a hopens)
    rw [List.append_assoc]
    exact List.prefix_append a _

theorem scrubSensitivePairs_scrubs (text : Text) :
    Scrubs id redacted (.key []) text (scrubSensitivePairs id redacted text) := by
  rw [scrubSensitivePairs_eq]
  exact scrubFrom_scrubs fun headerStyle h => by cases h

theorem scrubSensitivePairs_valuesMasked (text : Text) :
    ValuesMasked [] text (scrubSensitivePairs id redacted text) :=
  (scrubSensitivePairs_scrubs text).valuesMasked rfl

namespace Redactor

/-- Only whole values behind the separator of a sensitive key are replaced; a text without such
a separator is returned as it is. -/
theorem redact_masks_values (text : Text) :
    ValuesMasked [] text (new.redact text) ∧
      ((∀ headerStyle front, OpensValue headerStyle front → ¬front <+: text) →
        new.redact text = text) := by
  have hmasked := scrubSensitivePairs_valuesMasked text
  exact ⟨hmasked, hmasked.eq_of_no_key⟩

/-- One marker behind a text that opens no value is not the marker of a value. -/
theorem eq_of_scrub_eq {front text : Text} (hfront : '<' ∉ front)
    (hopens : ∀ headerStyle, ¬OpensValue headerStyle front)
    (h : scrubSensitivePairs id redacted text = front ++ redacted) : text = front ++ redacted := by
  have hmasked := scrubSensitivePairs_valuesMasked text
  rw [h] at hmasked
  generalize hout : front ++ redacted = out at hmasked
  cases hmasked with
  | same => rfl
  | cut a v hkey hne hv hend hrest =>
    obtain ⟨rfl, _⟩ := eq_of_append_redacted hfront hout.symm
    exact absurd hkey (hopens _)

theorem redact_masks_values_port :
    ValuesMasked [] "port=22".toList (new.redact "port=22".toList) ∧
      new.redact "port=22".toList = "port=22".toList := by
  obtain ⟨hmasked, hsame⟩ := redact_masks_values "port=22".toList
  have hnone : ∀ headerStyle, ∀ front ∈ "port=22".toList.inits, ¬OpensValue headerStyle front := by
    decide +kernel
  exact ⟨hmasked, hsame fun headerStyle front hopens hprefix =>
    hnone headerStyle front ((List.mem_inits _ _).mpr hprefix) hopens⟩

end Redactor

end RemoteDesktopTool
