import RemoteDesktopTool.RedactSecrets

namespace RemoteDesktopTool

open Masking

section

universe u

variable {τ : Type u} {σ : Type u} {ch : τ → Char} {mark : List τ}

theorem map_scrubFrom (ch : τ → Char) (ch' : σ → Char) (f : τ → σ) (hf : ∀ t, ch' (f t) = ch t)
    (s : ScanState) (text : List τ) :
    (scrubFrom ch mark s text).map f = scrubFrom ch' (mark.map f) s (text.map f) := by
  induction text generalizing s with
  | nil => rfl
  | cons t text ih =>
    have hemit : (emit ch mark s t).map f = emit ch' (mark.map f) s (f t) := by
      unfold emit
      rw [hf]
      repeat' split
      all_goals rfl
    rw [scrubFrom, List.map_append, hemit, ih, List.map_cons, scrubFrom, hf]

theorem map_redactSecret (ch : τ → Char) (ch' : σ → Char) (f : τ → σ)
    (hf : ∀ t, ch' (f t) = ch t) (secret : Text) (text : List τ) :
    (redactSecret ch mark text secret).map f =
      redactSecret ch' (mark.map f) (text.map f) secret := by
  have hsame : (text.map f).map ch' = text.map ch := by
    rw [List.map_map]
    exact List.map_congr_left fun t _ => hf t
  unfold redactSecret
  rw [hsame]
  split
  · exact map_replaceAll f hf secret text
  · rfl

theorem mem_scrubFrom {s : ScanState} {text : List τ} {t : τ}
    (h : t ∈ scrubFrom ch mark s text) : t ∈ mark ∨ t ∈ text := by
  induction text generalizing s with
  | nil => cases h
  | cons t' text ih =>
    rcases List.mem_append.mp h with h | h
    · unfold emit at h
      split at h
      · split at h
        · exact Or.inr (List.mem_cons.mpr (Or.inl (List.mem_singleton.mp h)))
        · split at h
          · cases h
          · exact Or.inl h
      · exact Or.inr (List.mem_cons.mpr (Or.inl (List.mem_singleton.mp h)))
    · rcases ih h with h | h
      · exact Or.inl h
      · exact Or.inr (List.mem_cons_of_mem t' h)

end

/-- A character that ends no value: no whitespace, and neither `,` nor `;`. -/
def Solid (c : Char) : Prop := endsValue false c = false

instance : DecidablePred Solid := fun _ => inferInstanceAs (Decidable (_ = _))

theorem Solid.endsValue {c : Char} (h : Solid c) (headerStyle : Bool) :
    endsValue headerStyle c = false := by
  cases headerStyle with
  | false => exact h
  | true =>
    refine decide_eq_false ?_
    rintro rfl
    exact absurd h (by decide)

/-- A character with a note whether it belongs to the value that is followed. -/
abbrev Traced : Type := Char × Bool

def trace (followed : Bool) (text : Text) : List Traced := text.map fun c => (c, followed)

def Untraced (tokens : List Traced) : Prop := ∀ t ∈ tokens, t.2 = false

theorem untraced_trace (text : Text) : Untraced (trace false text) := by
  intro t ht
  obtain ⟨c, _, rfl⟩ := List.mem_map.mp ht
  rfl

theorem map_fst_trace (followed : Bool) (text : Text) :
    (trace followed text).map Prod.fst = text := by
  rw [trace, List.map_map]
  exact List.map_id text

def tracedLine (p k v rest : Text) : List Traced :=
  trace false (p ++ k ++ ['=']) ++ (trace true v ++ trace false rest)

def Stretch (tokens : List Traced) : Prop :=
  ∃ v rest, tokens = v ++ rest ∧ (∀ t ∈ v, Solid t.1) ∧ Untraced rest

def Window (tokens : List Traced) : Prop :=
  ∃ a rest, tokens = a ++ rest ∧ Untraced a ∧ Stretch rest

theorem Untraced.append {a b : List Traced} (ha : Untraced a) (hb : Untraced b) :
    Untraced (a ++ b) := by
  intro t ht
  rcases List.mem_append.mp ht with ht | ht
  · exact ha t ht
  · exact hb t ht

theorem Untraced.of_append {a b : List Traced} (h : Untraced (a ++ b)) :
    Untraced a ∧ Untraced b :=
  ⟨fun t ht => h t (List.mem_append_left b ht), fun t ht => h t (List.mem_append_right a ht)⟩

theorem Stretch.of_append {a b : List Traced} (h : Stretch (a ++ b)) : Stretch b := by
  obtain ⟨v, rest, heq, hv, hrest⟩ := h
  rcases List.append_eq_append_iff.mp heq with ⟨d, rfl, rfl⟩ | ⟨d, rfl, rfl⟩
  · exact ⟨d, rest, rfl, fun t ht => hv t (List.mem_append_right a ht), hrest⟩
  · exact ⟨[], b, rfl, by simp, hrest.of_append.2⟩

theorem Window.of_append {a b : List Traced} (h : Window (a ++ b)) : Window b := by
  obtain ⟨x, rest, heq, hx, hrest⟩ := h
  rcases List.append_eq_append_iff.mp heq with ⟨d, rfl, rfl⟩ | ⟨d, rfl, rfl⟩
  · exact ⟨d, rest, rfl, hx.of_append.2, hrest⟩
  · exact ⟨[], b, rfl, by simp [Untraced], hrest.of_append⟩

theorem untraced_masked {mark text out : List Traced} (hmark : Untraced mark)
    (h : Masked mark text out) (htext : Untraced text) : Untraced out := by
  induction h with
  | same => exact htext
  | cut a w h ih =>
    have hb := htext.of_append.2
    exact (htext.of_append.1.of_append.1.append hmark).append (ih hb)

theorem Stretch.masked {mark text out : List Traced} (hmark : Untraced mark)
    (hsolid : ∀ t ∈ mark, Solid t.1) (h : Masked mark text out) (htext : Stretch text) :
    Stretch out := by
  induction h with
  | same => exact htext
  | cut a w h ih =>
    rename_i b out
    obtain ⟨v', rest', hout, hv', hrest'⟩ := ih htext.of_append
    obtain ⟨v, rest, heq, hv, hrest⟩ := htext
    rw [List.append_assoc] at heq
    rcases List.append_eq_append_iff.mp heq with ⟨d, rfl, _⟩ | ⟨d, rfl, rfl⟩
    · refine ⟨a ++ mark ++ v', rest', by simp only [hout, List.append_assoc], ?_, hrest'⟩
      intro t ht
      rcases List.mem_append.mp ht with ht | ht
      · rcases List.mem_append.mp ht with ht | ht
        · exact hv t (List.mem_append_left d ht)
        · exact hsolid t ht
      · exact hv' t ht
    · have hb := untraced_masked hmark h hrest.of_append.2.of_append.2
      exact ⟨v, d ++ mark ++ out, by simp only [List.append_assoc], hv,
        (hrest.of_append.1.append hmark).append hb⟩

theorem Window.masked {mark text out : List Traced} (hmark : Untraced mark)
    (hsolid : ∀ t ∈ mark, Solid t.1) (h : Masked mark text out) (htext : Window text) :
    Window out := by
  induction h with
  | same => exact htext
  | cut a w h ih =>
    rename_i b out
    obtain ⟨x', rest', hout, hx', hrest'⟩ := ih htext.of_append
    obtain ⟨x, rest, heq, hx, hrest⟩ := htext
    rw [List.append_assoc] at heq
    rcases List.append_eq_append_iff.mp heq with ⟨d, rfl, _⟩ | ⟨d, rfl, rfl⟩
    · refine ⟨a ++ mark ++ x', rest', by simp only [hout, List.append_assoc], ?_, hrest'⟩
      exact (hx.of_append.1.append hmark).append hx'
    · rw [← List.append_assoc] at hrest
      exact ⟨x, d ++ mark ++ out, by simp only [List.append_assoc], hx,
        hrest.masked hmark hsolid (Masked.cut d w h)⟩

namespace Redactor

def replaceSecrets (r : Redactor) (tokens : List Traced) : List Traced :=
  r.secrets.foldl (redactSecret Prod.fst (trace false redacted)) tokens

/-- What `redact` returns for a line some of whose characters are followed. -/
def redactTraced (r : Redactor) (tokens : List Traced) : List Traced :=
  r.redactTokens Prod.fst (trace false redacted) tokens

/-- Notes at the characters do not change what the redactor does. -/
theorem map_redactTokens {τ σ : Type} (ch : τ → Char) (ch' : σ → Char) (f : τ → σ)
    (hf : ∀ t, ch' (f t) = ch t) (mark : List τ) (r : Redactor) (text : List τ) :
    (r.redactTokens ch mark text).map f = r.redactTokens ch' (mark.map f) (text.map f) := by
  have hfold : ∀ (secrets : List Text) (text : List τ),
      (secrets.foldl (redactSecret ch mark) text).map f =
        secrets.foldl (redactSecret ch' (mark.map f)) (text.map f) := by
    intro secrets
    induction secrets with
    | nil => simp
    | cons secret secrets ih =>
      intro text
      rw [List.foldl_cons, ih, List.foldl_cons, map_redactSecret ch ch' f hf]
  unfold redactTokens
  rw [scrubSensitivePairs_eq, scrubSensitivePairs_eq, map_scrubFrom ch ch' f hf, hfold]

theorem redactTraced_fst (r : Redactor) (tokens : List Traced) :
    (r.redactTraced tokens).map Prod.fst = r.redact (tokens.map Prod.fst) := by
  have hmap := map_redactTokens Prod.fst id Prod.fst (fun _ => rfl) (trace false redacted) r tokens
  rwa [map_fst_trace] at hmap

/-- No character of `v` survives: all of them are covered by markers. -/
def Covered (r : Redactor) (p k v rest : Text) : Prop :=
  Untraced (r.redactTraced (tracedLine p k v rest))

instance (r : Redactor) (p k v rest : Text) : Decidable (r.Covered p k v rest) :=
  inferInstanceAs (Decidable (∀ t ∈ _, _))

end Redactor

end RemoteDesktopTool
