import RemoteDesktopTool.Tracing

namespace RemoteDesktopTool

open Masking

namespace ScanState

theorem foldl_step_key {k run : Text} (hk : ∀ c ∈ k, isKeyChar c = true) :
    k.foldl step (key run) = key (run ++ k) := by
  have hsigns : isKeyChar '=' = false ∧ isKeyChar ':' = false := by decide
  induction k generalizing run with
  | nil => rw [List.foldl_nil, List.append_nil]
  | cons c k ih =>
    have hc := hk c (by simp)
    have heq : c ≠ '=' := by rintro rfl; simp [hsigns] at hc
    have hcolon : c ≠ ':' := by rintro rfl; simp [hsigns] at hc
    have hstep : step (key run) c = key (run ++ [c]) := by
      simp [step, outside, heq, hcolon, hc]
    rw [List.foldl_cons, hstep, ih fun c' hc' => hk c' (List.mem_cons_of_mem c hc'),
      List.append_assoc, List.singleton_append]

theorem after_of_boundary {p : Text} (hp : ∀ c ∈ p.getLast?, isKeyChar c = false) :
    after p = key [] ∨ (∃ run, after p = colon run) ∨
      ∃ headerStyle sensitive begun, after p = value headerStyle sensitive begun := by
  rcases List.eq_nil_or_concat p with rfl | ⟨p, c, rfl⟩
  · exact Or.inl rfl
  · have hc : isKeyChar c = false := hp c (by simp)
    have houtside : ∀ run, outside run c = key [] ∨ (∃ run', outside run c = colon run') ∨
        ∃ headerStyle sensitive begun, outside run c = value headerStyle sensitive begun := by
      intro run
      unfold outside
      split
      · exact Or.inr (Or.inr ⟨_, _, _, rfl⟩)
      · split
        · exact Or.inr (Or.inl ⟨run, rfl⟩)
        · rw [if_neg (by simp [hc])]
          exact Or.inl rfl
    rw [List.concat_eq_append, after_append, List.foldl_cons, List.foldl_nil]
    unfold step
    split
    next run _ => exact houtside run
    next run _ =>
      split
      · exact Or.inr (Or.inr ⟨_, _, _, rfl⟩)
      · exact houtside []
    next headerStyle sensitive begun _ =>
      split
      · exact Or.inl rfl
      · exact Or.inr (Or.inr ⟨_, _, _, rfl⟩)

theorem sensitiveKeys_spec {k : Text} (hk : k ∈ sensitiveKeys) :
    k ≠ [] ∧ isSensitive k = true ∧ ∀ c ∈ k ++ ['='], c ≠ ' ' ∧ Solid c := by
  have hall : sensitiveKeys.all (fun k => !k.isEmpty && isSensitive k &&
      (k ++ ['=']).all fun c => c ≠ ' ' && !endsValue false c) = true := by decide
  have hkey := List.all_eq_true.mp hall k hk
  simp only [Bool.and_eq_true, List.all_eq_true] at hkey
  obtain ⟨⟨hne, hsensitive⟩, hsolid⟩ := hkey
  refine ⟨by simpa using hne, hsensitive, ?_⟩
  intro c hc
  simpa [Solid] using hsolid c hc

theorem sensitiveKeys_isKeyChar {k : Text} (hk : k ∈ sensitiveKeys) :
    ∀ c ∈ k, isKeyChar c = true := by
  have hall : sensitiveKeys.all (fun k => k.all isKeyChar) = true := by decide
  exact List.all_eq_true.mp (List.all_eq_true.mp hall k hk)

/-- A sensitive key at a boundary opens a value, unless an earlier pair swallows it; the
value it stands in then is that of the earlier pair. -/
theorem after_sensitive_key {p k : Text} (hk : k ∈ sensitiveKeys)
    (hp : ∀ c ∈ p.getLast?, isKeyChar c = false) :
    (after (p ++ k ++ ['='])).InSensitive ↔ ¬(after p).InInnocuous := by
  obtain ⟨hne, hsensitive, hsolid⟩ := sensitiveKeys_spec hk
  have hkey := sensitiveKeys_isKeyChar hk
  have hopen : ∀ s, k.foldl step s = key k →
      (k ++ ['=']).foldl step s = value false true false := by
    intro s hs
    rw [List.foldl_append, hs, List.foldl_cons, List.foldl_nil, ← hsensitive]
    rfl
  have hfresh : (value false true false).InSensitive := ⟨_, _, rfl⟩
  rw [List.append_assoc, after_append]
  rcases after_of_boundary hp with hp | ⟨run, hp⟩ | ⟨headerStyle, sensitive, begun, hp⟩
  · have hs := hopen (key []) (foldl_step_key hkey)
    rw [hp, hs]
    simp [hfresh, InInnocuous]
  · have hs : k.foldl step (colon run) = key k := by
      cases k with
      | nil => exact absurd rfl hne
      | cons c k =>
        have hspace := (hsolid c (by simp)).1
        have hstep : step (colon run) c = step (key []) c := if_neg hspace
        rw [List.foldl_cons, hstep, ← List.foldl_cons]
        exact foldl_step_key hkey
    rw [hp, hopen _ hs]
    simp [hfresh, InInnocuous]
  · have hinside : ∀ c ∈ k ++ ['='], endsValue headerStyle c = false :=
      fun c hc => (hsolid c hc).2.endsValue headerStyle
    rw [hp, foldl_step_value hinside]
    cases sensitive <;> simp [InSensitive, InInnocuous]

end ScanState

theorem exists_first_traced {tokens : List Traced} (h : ¬Untraced tokens) :
    ∃ a c b, tokens = a ++ c :: b ∧ Untraced a ∧ c.2 = true := by
  induction tokens with
  | nil => exact absurd (by simp [Untraced]) h
  | cons t tokens ih =>
    by_cases ht : t.2 = true
    · exact ⟨[], t, tokens, rfl, by simp [Untraced], ht⟩
    · have hrest : ¬Untraced tokens := by
        intro hrest
        refine h ?_
        intro t' ht'
        rcases List.mem_cons.mp ht' with rfl | ht'
        · simpa using ht
        · exact hrest t' ht'
      obtain ⟨a, c, b, rfl, ha, hc⟩ := ih hrest
      refine ⟨t :: a, c, b, rfl, ?_, hc⟩
      intro t' ht'
      rcases List.mem_cons.mp ht' with rfl | ht'
      · simpa using ht
      · exact ha t' ht'

theorem Untraced.scrubFrom {mark tokens : List Traced} (h : Untraced tokens)
    (hmark : Untraced mark) (s : ScanState) : Untraced (scrubFrom Prod.fst mark s tokens) := by
  intro t ht
  rcases mem_scrubFrom ht with ht | ht
  · exact hmark t ht
  · exact h t ht

/-- From the first character that is followed on, all of them are hidden exactly when it is
read in the value of a sensitive pair. -/
theorem untraced_scrub_iff {mark a b : List Traced} {c : Traced} (hmark : Untraced mark)
    (ha : Untraced a) (hc : c.2 = true) (hb : Stretch (c :: b)) :
    Untraced (scrubSensitivePairs Prod.fst mark (a ++ c :: b)) ↔
      (ScanState.after (a.map Prod.fst)).InSensitive := by
  obtain ⟨v, rest, heq, hv, hrest⟩ := hb
  rw [scrubSensitivePairs_eq, scrubFrom_append]
  show Untraced (_ ++ scrubFrom _ _ (ScanState.after (a.map Prod.fst)) _) ↔ _
  constructor
  · intro h
    by_contra hnot
    have hemit : emit Prod.fst mark (ScanState.after (a.map Prod.fst)) c = [c] := by
      unfold emit
      split
      next headerStyle begun hs => exact absurd ⟨headerStyle, begun, hs⟩ hnot
      next => rfl
    have hleft := h.of_append.2
    rw [scrubFrom, hemit] at hleft
    have hcleft := hleft c (by simp)
    rw [hc] at hcleft
    cases hcleft
  · rintro ⟨headerStyle, begun, hs⟩
    refine (ha.scrubFrom hmark _).append ?_
    rw [hs, heq, scrubFrom_append, scrubFrom_value fun t ht => (hv t ht).endsValue headerStyle]
    refine Untraced.append ?_ (hrest.scrubFrom hmark _)
    rw [if_pos rfl]
    split
    · simp [Untraced]
    · exact hmark

namespace Redactor

/-- The first character of `v` that the known secrets leave, if they leave any, is read in
the value of a sensitive pair. -/
def LeftInSensitive (r : Redactor) (p k v rest : Text) : Prop :=
  ∀ a c b, r.replaceSecrets (tracedLine p k v rest) = a ++ c :: b → Untraced a → c.2 = true →
    (ScanState.after (a.map Prod.fst)).InSensitive

theorem untraced_redacted : Untraced (trace false redacted) := untraced_trace redacted

theorem replaceSecrets_window (r : Redactor) {p k v rest : Text} (hv : ∀ c ∈ v, Solid c) :
    Window (r.replaceSecrets (tracedLine p k v rest)) := by
  have hsolid : ∀ t ∈ trace false redacted, Solid t.1 := by decide
  have hfold : ∀ (secrets : List Text) (tokens : List Traced),
      (∀ secret ∈ secrets, secret ≠ []) → Window tokens →
      Window (secrets.foldl (redactSecret Prod.fst (trace false redacted)) tokens) := by
    intro secrets
    induction secrets with
    | nil => exact fun tokens _ h => h
    | cons secret secrets ih =>
      intro tokens hne h
      refine ih _ (fun s hs => hne s (List.mem_cons_of_mem secret hs)) ?_
      unfold redactSecret
      split
      · exact h.masked untraced_redacted hsolid
          (replaceAll_replaced _ _ (hne secret (by simp)) tokens).masked
      · exact h
  refine hfold _ _ ?_ ⟨_, _, rfl, untraced_trace _, _, _, rfl, ?_, untraced_trace rest⟩
  · rintro secret hmem rfl
    exact absurd (r.byteLen_ge [] hmem) (by decide)
  · intro t ht
    obtain ⟨c, hc, rfl⟩ := List.mem_map.mp ht
    exact hv c hc

theorem covered_iff_left (r : Redactor) {p k v rest : Text} (hv : ∀ c ∈ v, Solid c) :
    r.Covered p k v rest ↔ r.LeftInSensitive p k v rest := by
  have hwindow : Window (r.replaceSecrets (tracedLine p k v rest)) := r.replaceSecrets_window hv
  obtain ⟨x, y, hxy, hx, hy⟩ := hwindow
  have hcovered : r.Covered p k v rest ↔ Untraced (scrubSensitivePairs Prod.fst
      (trace false redacted) (r.replaceSecrets (tracedLine p k v rest))) := Iff.rfl
  have hstretch : ∀ a c b, r.replaceSecrets (tracedLine p k v rest) = a ++ c :: b → c.2 = true →
      Stretch (c :: b) := by
    intro a c b heq hc
    rw [hxy] at heq
    rcases List.append_eq_append_iff.mp heq with ⟨d, rfl, rfl⟩ | ⟨d, rfl, hcons⟩
    · exact hy.of_append
    · cases d with
      | nil =>
        rw [List.nil_append] at hcons
        rwa [hcons]
      | cons c' d =>
        obtain ⟨rfl, _⟩ := List.cons.inj hcons
        have hnot := hx c (by simp)
        rw [hc] at hnot
        cases hnot
  constructor
  · intro h a c b heq ha hc
    rw [hcovered, heq] at h
    exact (untraced_scrub_iff untraced_redacted ha hc (hstretch a c b heq hc)).mp h
  · intro h
    by_cases hnone : Untraced (r.replaceSecrets (tracedLine p k v rest))
    · rw [hcovered, scrubSensitivePairs_eq]
      exact hnone.scrubFrom untraced_redacted _
    · obtain ⟨a, c, b, heq, ha, hc⟩ := exists_first_traced hnone
      rw [hcovered, heq]
      exact (untraced_scrub_iff untraced_redacted ha hc (hstretch a c b heq hc)).mpr
        (h a c b heq ha hc)

def NoSecretIn (r : Redactor) (line : Text) : Prop := ∀ secret ∈ r.secrets, ¬secret <:+: line

theorem replaceSecrets_of_noSecretIn (r : Redactor) {tokens : List Traced}
    (h : r.NoSecretIn (tokens.map Prod.fst)) : r.replaceSecrets tokens = tokens :=
  foldl_redactSecret_of_absent h

theorem tracedLine_fst (p k v rest : Text) :
    (tracedLine p k v rest).map Prod.fst = p ++ k ++ ['='] ++ v ++ rest := by
  simp only [tracedLine, List.map_append, map_fst_trace, List.append_assoc]

/-- The value of a sensitive pair is covered exactly when what the known secrets leave of it
is read in the value of a sensitive pair; in a line without known secrets, exactly when the
text in front of the pair does not end in the value of an innocuous one. -/
theorem sensitive_pair_covered_iff (r : Redactor) {p k v rest : Text} (hk : k ∈ sensitiveKeys)
    (hp : ∀ c ∈ p.getLast?, isKeyChar c = false) (hne : v ≠ []) (hv : ∀ c ∈ v, Solid c) :
    (r.Covered p k v rest ↔ r.LeftInSensitive p k v rest) ∧
      (r.NoSecretIn (p ++ k ++ ['='] ++ v ++ rest) →
        (r.Covered p k v rest ↔ ¬(ScanState.after p).InInnocuous)) := by
  refine ⟨r.covered_iff_left hv, ?_⟩
  intro hnone
  rw [← tracedLine_fst] at hnone
  have hcovered : r.Covered p k v rest ↔ Untraced (scrubSensitivePairs Prod.fst
      (trace false redacted) (r.replaceSecrets (tracedLine p k v rest))) := Iff.rfl
  rw [hcovered, r.replaceSecrets_of_noSecretIn hnone, ← ScanState.after_sensitive_key hk hp]
  cases v with
  | nil => exact absurd rfl hne
  | cons c v =>
    have hstretch : Stretch ((c, true) :: (trace true v ++ trace false rest)) := by
      refine ⟨trace true (c :: v), trace false rest, rfl, ?_, untraced_trace rest⟩
      intro t ht
      obtain ⟨c', hc', rfl⟩ := List.mem_map.mp ht
      exact hv c' hc'
    have hfirst := untraced_scrub_iff untraced_redacted (untraced_trace (p ++ k ++ ['='])) rfl
      hstretch
    rwa [map_fst_trace] at hfirst

theorem sensitive_pair_covered_behind_comma :
    (new.Covered "user=alice, ".toList "password".toList "hunter2".toList [] ↔
        new.LeftInSensitive "user=alice, ".toList "password".toList "hunter2".toList []) ∧
      (new.NoSecretIn
          ("user=alice, ".toList ++ "password".toList ++ ['='] ++ "hunter2".toList ++ []) →
        (new.Covered "user=alice, ".toList "password".toList "hunter2".toList [] ↔
          ¬(ScanState.after "user=alice, ".toList).InInnocuous)) :=
  sensitive_pair_covered_iff new (by decide) (by simp [isKeyChar]) (by decide)
    (by simp [Solid, endsValue, isWhitespace])

/-- The value of `target: ` is the rest of the line, and the pair in it is not seen. -/
theorem sensitive_pair_left_in_header :
    ¬ ∀ (r : Redactor) (p k v rest : Text), k ∈ sensitiveKeys →
      (∀ c ∈ p.getLast?, isKeyChar c = false) → v ≠ [] → (∀ c ∈ v, Solid c) →
      (∀ c ∈ rest.head?, ¬Solid c) → r.Covered p k v rest := by
  intro h
  have hcovered := h new "target: ".toList "password".toList "hunter2".toList [] (by decide)
    (by simp [isKeyChar]) (by decide) (by simp [Solid, endsValue, isWhitespace]) (by simp)
  revert hcovered
  decide +kernel

end Redactor

end RemoteDesktopTool
