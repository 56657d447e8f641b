import RemoteDesktopTool.Origins
import RemoteDesktopTool.ScrubbedPairs
import RemoteDesktopTool.SeparateMasks

namespace RemoteDesktopTool

open Masking

theorem keyBefore_append (a b : Text) :
    keyBefore id (a ++ b) = if b.all isKeyChar then keyBefore id a ++ b else keyBefore id b := by
  induction b using List.reverseRecOn with
  | nil => simp
  | append_singleton b c ih =>
    rw [← List.append_assoc, keyBefore_concat, keyBefore_concat, ih, List.all_append]
    simp only [id, List.all_cons, List.all_nil, Bool.and_true]
    by_cases hc : isKeyChar c = true
    · by_cases hb : b.all isKeyChar = true
      · rw [if_pos hc, if_pos hb, if_pos (by rw [hb, hc]; rfl), List.append_assoc]
      · rw [if_pos hc, if_neg hb, if_neg (fun h => hb (Bool.and_eq_true_iff.mp h).1), if_pos hc]
    · rw [if_neg hc, if_neg (fun h => hc (Bool.and_eq_true_iff.mp h).2), if_neg hc]

section

variable {y : Char}

/-- An identifier character with which no sensitive key begins. -/
def StartsNoKey (y : Char) : Prop := y = 'x' ∨ y = 'z'

theorem exists_startsNoKey (c : Char) : ∃ y, StartsNoKey y ∧ y ≠ c := by
  by_cases hc : c = 'x'
  · exact ⟨'z', Or.inr rfl, by rw [hc]; decide⟩
  · exact ⟨'x', Or.inl rfl, fun h => hc h.symm⟩

theorem StartsNoKey.ne_bracket (hy : StartsNoKey y) : y ≠ '<' := by
  rcases hy with rfl | rfl <;> decide

theorem StartsNoKey.isKeyChar (hy : StartsNoKey y) : isKeyChar y = true := by
  rcases hy with rfl | rfl <;> decide

theorem StartsNoKey.not_infix (hy : StartsNoKey y) {secret : Text} (hlen : 4 ≤ secret.byteLen) :
    ¬secret <:+: [y] := by
  intro hin
  have hle : secret.byteLen ≤ 1 := by
    obtain ⟨a, b, hab⟩ := hin
    cases a with
    | nil =>
      cases secret with
      | nil => decide
      | cons c secret =>
        obtain ⟨rfl, hrest⟩ := List.cons.inj hab
        obtain ⟨rfl, _⟩ := List.append_eq_nil_iff.mp hrest
        rcases hy with rfl | rfl <;> decide
    | cons c a =>
      obtain ⟨_, hrest⟩ := List.cons.inj hab
      obtain ⟨hfront, _⟩ := List.append_eq_nil_iff.mp hrest
      obtain ⟨_, rfl⟩ := List.append_eq_nil_iff.mp hfront
      decide
  omega

theorem StartsNoKey.endsInSensitiveKey (hy : StartsNoKey y) {key : Text}
    (h : isSensitive (y :: key) = true) : EndsInSensitiveKey key := by
  have hstart : ∀ candidate ∈ sensitiveKeys, (candidate.map Char.toLower).head? ≠ some y ∧
      candidate.head? ≠ some y := by
    rcases hy with rfl | rfl <;> decide
  have hlower : y.toLower = y := by
    rcases hy with rfl | rfl <;> decide
  rcases (isSensitive_iff _).mp h with ⟨candidate, hmem, hcase⟩ | ⟨candidate, hmem, hend⟩
  · rw [Text.eqIgnoreAsciiCase, decide_eq_true_iff] at hcase
    refine absurd ?_ (hstart candidate hmem).1
    rw [← hcase, List.map_cons, hlower]
    rfl
  · rcases List.suffix_cons_iff.mp hend with rfl | hend
    · exact absurd rfl (hstart _ hmem).2
    · exact ⟨candidate, hmem, hend⟩

end

/-- No sensitive key stands in front of a separator and a value. -/
def NoPairs (text : Text) : Prop :=
  ∀ headerStyle front c rest, text = front ++ c :: rest → OpensValue headerStyle front →
    endsValue headerStyle c = true

theorem noPairs_of_not_mem {text : Text} (hequals : '=' ∉ text) (hcolon : ':' ∉ text) :
    NoPairs text := by
  rintro headerStyle front c rest rfl ⟨before, rfl, _⟩
  cases headerStyle with
  | false => exact absurd (by simp [separatorText]) hequals
  | true => exact absurd (by simp [separatorText]) hcolon

/-- A part of a text without pairs has none behind a character that no key begins with. -/
theorem NoPairs.cons_part {text w : Text} (h : NoPairs text) (hin : w <:+: text) {y : Char}
    (hy : StartsNoKey y) : NoPairs (y :: w) := by
  obtain ⟨p, q, htext⟩ := hin
  rintro headerStyle front c rest hsplit ⟨before, rfl, hkey⟩
  cases before with
  | nil =>
    rcases hy with rfl | rfl <;> cases headerStyle <;> simp [separatorText] at hsplit
  | cons y' before =>
    rw [List.append_assoc, List.cons_append] at hsplit
    obtain ⟨rfl, rfl⟩ := List.cons.inj hsplit
    refine h headerStyle (p ++ before ++ separatorText headerStyle) c (rest ++ q)
      (by rw [← htext]; simp) ⟨p ++ before, rfl, ?_⟩
    rw [← List.singleton_append, keyBefore_append] at hkey
    rw [keyBefore_append]
    by_cases hall : before.all isKeyChar = true
    · rw [if_pos hall] at hkey ⊢
      have hy' : keyBefore id [y] = [y] := by simp [keyBefore, hy.isKeyChar]
      rw [hy', List.singleton_append] at hkey
      obtain ⟨candidate, hmem, hend⟩ := hy.endsInSensitiveKey hkey
      exact (isSensitive_iff _).mpr
        (Or.inr ⟨candidate, hmem, hend.trans (List.suffix_append _ before)⟩)
    · rwa [if_neg hall] at hkey ⊢

theorem mem_numbered {n : Nat} {text : Text} {t : Numbered} (h : t ∈ numbered n text) :
    ∃ i, t.2 = some i ∧ n ≤ i ∧ i < n + text.length := by
  obtain ⟨⟨c, i⟩, hmem, rfl⟩ := List.mem_map.mp h
  obtain ⟨hle, hlt, _⟩ := List.mem_zipIdx hmem
  exact ⟨i, rfl, hle, hlt⟩

theorem numbered_append (n : Nat) (a b : Text) :
    numbered n (a ++ b) = numbered n a ++ numbered (n + a.length) b := by
  rw [numbered, List.zipIdx_append, List.map_append]
  rfl

namespace Redactor

theorem ClearOfMarker.fenced {secret : Text} (h : ClearOfMarker secret) : Fenced redacted secret :=
  fenced_of_delimited h.1 h.2.1 h.2.2

section

variable {τ : Type} {ch : τ → Char} {mark : List τ} {secrets : List Text}

theorem redactSecret_eq_replaceAll {secret : Text} (hne : secret ≠ []) (text : List τ) :
    redactSecret ch mark text secret = replaceAll ch mark secret text := by
  unfold redactSecret
  split
  · rfl
  next hnot =>
    rcases replaceAll_cases ch mark hne text with ⟨_, hsame⟩ | ⟨a, w, b, rfl, hw, _⟩
    · exact hsame.symm
    · exact absurd ⟨a.map ch, b.map ch, by simp [hw]⟩ hnot

/-- Secrets whose occurrences do not overlap are all replaced, each where it stands in the
text. -/
theorem allMasked_foldl (hmark : mark.map ch = redacted)
    (hclear : ∀ secret ∈ secrets, ClearOfMarker secret) {text : List τ}
    (hsep : Separate secrets (text.map ch)) :
    AllMasked ch mark secrets text (secrets.foldl (redactSecret ch mark) text) := by
  induction secrets using List.reverseRecOn with
  | nil => exact allMasked_nil_pats text
  | append_singleton secrets secret ih =>
    have hbefore := ih (fun s hs => hclear s (List.mem_append_left _ hs))
      (hsep.mono fun s hs => List.mem_append_left _ hs)
    have hsecret := hclear secret (by simp)
    have hfence : Fenced (mark.map ch) secret := hmark ▸ hsecret.fenced
    rw [List.foldl_append, List.foldl_cons, List.foldl_nil,
      redactSecret_eq_replaceAll hsecret.ne_nil]
    exact hbefore.replaceAll hfence hsep

end

/-- Nothing of an occurrence of a registered secret is left. -/
def HidesSecrets (r : Redactor) (text : Text) : Prop :=
  ∀ secret ∈ r.secrets, ∀ a b, text = a ++ secret ++ b →
    ∀ i, a.length ≤ i → i < a.length + secret.length → some i ∉ r.origins text

/-- In whatever order the secrets are registered, nothing of them is left, and the result is
the same. -/
def HiddenInEveryOrder (secrets : List Text) (text : Text) : Prop :=
  ∀ order : List Text, order.Perm secrets → (withSecrets order).HidesSecrets text ∧
    (withSecrets order).redact text = (withSecrets secrets).redact text

theorem hidesSecrets_of_separate {r : Redactor} {text : Text}
    (hclear : ∀ secret ∈ r.secrets, ClearOfMarker secret) (hsep : Separate r.secrets text) :
    r.HidesSecrets text := by
  intro secret hmem a b htext i hle hlt horigin
  have hmark : numberedMark.map Prod.fst = redacted := by decide
  have hnone : ∀ t ∈ numberedMark, t.2 = none := by decide
  have hsep' : Separate r.secrets ((numbered 0 text).map Prod.fst) := by
    rwa [map_fst_numbered]
  obtain ⟨t, ht, hi⟩ := List.mem_map.mp horigin
  have hmasked := allMasked_foldl hmark hclear hsep'
  have htokens : numbered 0 text = numbered 0 a ++ numbered a.length secret ++
      numbered (a.length + secret.length) b := by
    rw [htext, numbered_append, numbered_append, List.length_append, Nat.zero_add, Nat.zero_add]
  have hsecret : (numbered a.length secret).map Prod.fst ∈ r.secrets := by
    rwa [map_fst_numbered]
  have hne : numbered a.length secret ≠ [] := by
    have hsecretne := (hclear secret hmem).ne_nil
    intro hnil
    rw [← map_fst_numbered a.length secret, hnil] at hsecretne
    exact hsecretne rfl
  have hplaces : t ∈ numberedMark ∨ t ∈ numbered 0 a ∨
      t ∈ numbered (a.length + secret.length) b := by
    unfold redactTokens at ht
    rw [scrubSensitivePairs_eq] at ht
    rcases mem_scrubFrom ht with ht | ht
    · exact Or.inl ht
    · exact hmasked.hides htokens hne hsecret hsep' ht
  rcases hplaces with ht | ht | ht
  · rw [hnone t ht] at hi
    cases hi
  · obtain ⟨j, hj, _, hbound⟩ := mem_numbered ht
    obtain rfl := Option.some.inj (hi.symm.trans hj)
    omega
  · obtain ⟨j, hj, hbound, _⟩ := mem_numbered ht
    obtain rfl := Option.some.inj (hi.symm.trans hj)
    omega

theorem redact_eq_of_separate {r r' : Redactor} {text : Text}
    (hclear : ∀ secret ∈ r.secrets, ClearOfMarker secret)
    (hsame : ∀ secret, secret ∈ r.secrets ↔ secret ∈ r'.secrets)
    (hsep : Separate r.secrets text) : r.redact text = r'.redact text := by
  have hmark : redacted.map id = redacted := List.map_id redacted
  have hsep' : Separate r.secrets (text.map id) := by rwa [List.map_id]
  have hmasked := allMasked_foldl hmark hclear hsep'
  have hmasked' := allMasked_foldl hmark (fun s hs => hclear s ((hsame s).mpr hs))
    (hsep'.mono fun s hs => (hsame s).mpr hs)
  exact congrArg (scrubSensitivePairs id redacted) (hmasked.unique hmasked' hsame hsep')

theorem hiddenInEveryOrder_of_separate {secrets : List Text} {text : Text}
    (hclear : ∀ secret ∈ secrets, ClearOfMarker secret) (hsep : Separate secrets text) :
    HiddenInEveryOrder secrets text := by
  intro order hperm
  have hsub : ∀ s ∈ (withSecrets order).secrets, s ∈ secrets :=
    fun s hs => hperm.mem_iff.mp ((mem_withSecrets order s).mp hs).1
  have hclear' := fun s hs => hclear s (hsub s hs)
  have hsame : ∀ s, s ∈ (withSecrets order).secrets ↔ s ∈ (withSecrets secrets).secrets := by
    intro s
    rw [mem_withSecrets, mem_withSecrets, hperm.mem_iff]
  exact ⟨hidesSecrets_of_separate hclear' (hsep.mono hsub),
    redact_eq_of_separate hclear' hsame (hsep.mono hsub)⟩

theorem prefix_foldl_withSecret (secrets : List Text) (r : Redactor) :
    r.secrets <+: (secrets.foldl withSecret r).secrets := by
  induction secrets generalizing r with
  | nil => exact List.prefix_rfl
  | cons secret secrets ih =>
    refine List.IsPrefix.trans ?_ (ih (r.withSecret secret))
    unfold withSecret
    split
    · exact List.prefix_append _ _
    · exact List.prefix_rfl

/-- The secret that is registered first is replaced first. -/
theorem withSecrets_cons {secret : Text} (hlen : 4 ≤ secret.byteLen) (secrets : List Text) :
    ∃ others, (withSecrets (secret :: secrets)).secrets = secret :: others := by
  obtain ⟨others, hothers⟩ := prefix_foldl_withSecret secrets (new.withSecret secret)
  rw [new_withSecret hlen] at hothers
  exact ⟨others, hothers.symm⟩

section

variable {secrets : List Text} {y : Char}

/-- The text has a marker, and is not just one behind `y`. -/
def MoreThanMarker (y : Char) (text : Text) : Prop := '<' ∈ text ∧ text ≠ y :: redacted

theorem moreThanMarker_replaceAll (hy : y ≠ '<') {pat text : Text} (hpat : pat ≠ [])
    (hin : pat <:+: text) (hne : text ≠ y :: pat) :
    MoreThanMarker y (replaceAll id redacted pat text) := by
  have hfront : '<' ∉ [y] := fun h => hy (List.mem_singleton.mp h).symm
  refine ⟨?_, fun h => hne (eq_of_replaceAll_eq hfront hpat hin h)⟩
  rcases replaceAll_cases id redacted hpat text with ⟨hnot, _⟩ | ⟨a, w, b, _, _, _, heq⟩
  · rw [List.map_id] at hnot
    exact absurd hin hnot
  · have hfirst : '<' ∈ redacted := by decide
    rw [heq]
    exact List.mem_append_left _ (List.mem_append_right _ hfirst)

theorem MoreThanMarker.foldl (hy : y ≠ '<') (hclear : ∀ secret ∈ secrets, ClearOfMarker secret)
    {text : Text} (h : MoreThanMarker y text) :
    MoreThanMarker y (secrets.foldl (redactSecret id redacted) text) := by
  induction secrets generalizing text with
  | nil => exact h
  | cons secret secrets ih =>
    have hsecret := hclear secret (by simp)
    refine ih (fun s hs => hclear s (List.mem_cons_of_mem secret hs)) ?_
    unfold redactSecret
    rw [List.map_id]
    split
    next hin =>
      refine moreThanMarker_replaceAll hy hsecret.ne_nil hin ?_
      rintro rfl
      rcases List.mem_cons.mp h.1 with hfirst | hfirst
      · exact hy hfirst.symm
      · exact hsecret.1 hfirst
    next => exact h

theorem MoreThanMarker.scrub (hy : StartsNoKey y) {text : Text} (h : MoreThanMarker y text) :
    scrubSensitivePairs id redacted text ≠ y :: redacted := by
  have hfront : '<' ∉ [y] := fun h => hy.ne_bracket (List.mem_singleton.mp h).symm
  have hopens : ∀ headerStyle, ¬OpensValue headerStyle [y] := by
    rcases hy with rfl | rfl <;> decide
  exact fun hscrub => h.2 (eq_of_scrub_eq hfront hopens hscrub)

/-- The secret that is replaced first, between a character that begins none and a text that has
none. -/
theorem foldl_first {τ : Type} {ch : τ → Char} {mark d w : List τ} {t : τ} {s : Text}
    {others : List Text} (hmark : mark.map ch = redacted)
    (hlen : ∀ secret ∈ s :: others, 4 ≤ secret.byteLen)
    (hclear : ∀ secret ∈ s :: others, ClearOfMarker secret) (hy : StartsNoKey (ch t))
    (hhead : s.head? ≠ some (ch t)) (hw : w.map ch = s)
    (habsent : ∀ secret ∈ s :: others, ¬secret <:+: d.map ch) :
    (s :: others).foldl (redactSecret ch mark) ([t] ++ (w ++ d)) = [t] ++ (mark ++ d) := by
  have hne : s ≠ [] := (hclear s List.mem_cons_self).ne_nil
  have hfront : ∀ x z, [t] = x ++ z → z ≠ [] → ¬s <+: (z ++ (w ++ d)).map ch := by
    intro x z hsplit hz hin
    cases z with
    | nil => exact hz rfl
    | cons t' z =>
      obtain ⟨rfl, hrest⟩ : x = [] ∧ [t] = t' :: z := by
        cases x with
        | nil => exact ⟨rfl, hsplit⟩
        | cons t'' x => simp at hsplit
      obtain ⟨rfl, rfl⟩ := List.cons.inj hrest
      cases s with
      | nil => exact hne rfl
      | cons c s =>
        obtain ⟨rfl, _⟩ := List.cons_prefix_cons.mp hin
        exact hhead rfl
  have hsame : redactSecret ch mark d s = d := if_neg (habsent s List.mem_cons_self)
  have hwne : w ≠ [] := by
    rintro rfl
    exact hne hw.symm
  have hfirst : redactSecret ch mark ([t] ++ (w ++ d)) s = [t] ++ (mark ++ d) := by
    rw [redactSecret_eq_replaceAll hne, replaceAll_keeps hfront, replaceAll_front hw hwne,
      ← redactSecret_eq_replaceAll hne, hsame]
  have hgone : ∀ secret ∈ others, ¬secret <:+: ([t] ++ (mark ++ d)).map ch := by
    intro secret hmem hin
    have hmem' := List.mem_cons_of_mem s hmem
    rw [List.map_append, List.map_append, hmark, ← List.append_assoc] at hin
    rcases (hclear secret hmem').apart _ _ hin with hin | hin
    · exact hy.not_infix (hlen secret hmem') hin
    · exact habsent secret hmem' hin
  rw [List.foldl_cons, hfirst, foldl_redactSecret_of_absent hgone]

theorem mem_of_withSecrets_erase {s : Text} (hs : s ∈ secrets) {secret : Text}
    (h : secret ∈ (withSecrets (s :: secrets.erase s)).secrets) : secret ∈ secrets :=
  (List.perm_cons_erase hs).mem_iff.mpr ((mem_withSecrets _ _).mp h).1

/-- With a secret registered first that another one is a part of, no more than one marker is
left of it; with the other one registered first, something else is. -/
theorem not_hiddenInEveryOrder_of_part (hlen : ∀ secret ∈ secrets, 4 ≤ secret.byteLen)
    (hclear : ∀ secret ∈ secrets, ClearOfMarker secret) {s s' : Text} (hs : s ∈ secrets)
    (hs' : s' ∈ secrets) (hpart : s' <:+: s) (hne : s' ≠ s) (hy : StartsNoKey y)
    (hhead : s.head? ≠ some y) : ¬HiddenInEveryOrder secrets (y :: s) := by
  intro hall
  have hwhole : (withSecrets (s :: secrets.erase s)).redact (y :: s) = y :: redacted := by
    obtain ⟨others, hothers⟩ := withSecrets_cons (hlen s hs) (secrets.erase s)
    have hmem : ∀ secret ∈ s :: others, secret ∈ secrets :=
      fun secret h => mem_of_withSecrets_erase hs (hothers ▸ h)
    have hliteral : (s :: others).foldl (redactSecret id redacted) ([y] ++ (s ++ [])) =
        [y] ++ (redacted ++ []) :=
      foldl_first (List.map_id redacted) (fun s hs => hlen s (hmem s hs))
        (fun s hs => hclear s (hmem s hs)) hy hhead (List.map_id s)
        (fun s hs hin => (hclear s (hmem s hs)).ne_nil (List.infix_nil.mp hin))
    rw [List.append_nil, List.append_nil] at hliteral
    have hscrub : scrubSensitivePairs id redacted (y :: redacted) = y :: redacted := by
      rw [scrubSensitivePairs_eq]
      rcases hy with rfl | rfl <;> decide
    unfold redact redactTokens
    rw [hothers]
    exact (congrArg (scrubSensitivePairs id redacted) hliteral).trans hscrub
  have hpieces : (withSecrets (s' :: secrets.erase s')).redact (y :: s) ≠ y :: redacted := by
    obtain ⟨others, hothers⟩ := withSecrets_cons (hlen s' hs') (secrets.erase s')
    have hmem : ∀ secret ∈ others, secret ∈ secrets :=
      fun secret h => mem_of_withSecrets_erase hs' (hothers ▸ List.mem_cons_of_mem s' h)
    have hin : s' <:+: y :: s := hpart.trans (List.suffix_cons y s).isInfix
    have hfirst := moreThanMarker_replaceAll hy.ne_bracket (hclear s' hs').ne_nil hin
      fun h => hne (List.cons.inj h).2.symm
    rw [← redactSecret_eq_replaceAll (hclear s' hs').ne_nil] at hfirst
    have hliteral := hfirst.foldl hy.ne_bracket fun s hs => hclear s (hmem s hs)
    unfold redact redactTokens
    rw [hothers, List.foldl_cons]
    exact hliteral.scrub hy
  have hsame := (hall _ (List.perm_cons_erase hs).symm).2.trans
    (hall _ (List.perm_cons_erase hs').symm).2.symm
  exact hpieces (hsame.symm.trans hwhole)

/-- With a secret registered first whose end begins another one, the rest of the other one is
left. -/
theorem not_hiddenInEveryOrder_of_overlap (hlen : ∀ secret ∈ secrets, 4 ≤ secret.byteLen)
    (hclear : ∀ secret ∈ secrets, ClearOfMarker secret) {u v d : Text} (hs : u ++ v ∈ secrets)
    (hs' : v ++ d ∈ secrets) (hd : d ≠ []) (habsent : ∀ secret ∈ secrets, ¬secret <:+: d)
    (hy : StartsNoKey y) (hhead : (u ++ v).head? ≠ some y) :
    ¬HiddenInEveryOrder secrets (y :: (u ++ v ++ d)) := by
  intro hall
  obtain ⟨others, hothers⟩ := withSecrets_cons (hlen _ hs) (secrets.erase (u ++ v))
  have hmem : ∀ secret ∈ (u ++ v) :: others, secret ∈ secrets :=
    fun secret h => mem_of_withSecrets_erase hs (hothers ▸ h)
  have hmark : numberedMark.map Prod.fst = redacted := by decide
  have hregistered : v ++ d ∈ (withSecrets ((u ++ v) :: secrets.erase (u ++ v))).secrets := by
    rw [mem_withSecrets]
    exact ⟨(List.perm_cons_erase hs).mem_iff.mp hs', hlen _ hs'⟩
  have hhidden := (hall _ (List.perm_cons_erase hs).symm).1 (v ++ d) hregistered (y :: u) []
    (by simp) (1 + (u ++ v).length) (by simp; omega) (by
      have hpos := List.length_pos_of_ne_nil hd
      simp
      omega)
  have hliteral : ((u ++ v) :: others).foldl (redactSecret Prod.fst numberedMark)
      ([(y, some 0)] ++ (numbered 1 (u ++ v) ++ numbered (1 + (u ++ v).length) d)) =
        [(y, some 0)] ++ (numberedMark ++ numbered (1 + (u ++ v).length) d) := by
    refine foldl_first hmark (fun s hs => hlen s (hmem s hs))
      (fun s hs => hclear s (hmem s hs)) hy hhead (map_fst_numbered 1 (u ++ v)) ?_
    rw [map_fst_numbered]
    exact fun s hs => habsent s (hmem s hs)
  have htokens : numbered 0 (y :: (u ++ v ++ d)) =
      [((y, some 0) : Numbered)] ++ (numbered 1 (u ++ v) ++
        numbered (1 + (u ++ v).length) d) := by
    rw [numbered_cons, numbered_append]
    rfl
  have hafter : ([((y, some 0) : Numbered)].map Prod.fst ++ redacted).foldl ScanState.step
      (.key []) = .key [] := by
    rcases hy with rfl | rfl <;> decide
  refine hhidden ?_
  unfold origins redactTokens
  rw [hothers, htokens, hliteral, scrubSensitivePairs_eq, ← List.append_assoc, scrubFrom_append,
    List.map_append, List.map_append, hmark, hafter]
  refine List.mem_append_right _ ?_
  cases d with
  | nil => exact absurd rfl hd
  | cons c d =>
    rw [numbered_cons, scrubFrom]
    exact List.mem_cons_self

theorem exists_startsNoKey_behind (s : Text) : ∃ y, StartsNoKey y ∧ s.head? ≠ some y := by
  obtain ⟨y, hy, hne⟩ := exists_startsNoKey (s.headD 'x')
  refine ⟨y, hy, ?_⟩
  intro h
  rw [List.headD_eq_head?_getD, h] at hne
  exact hne rfl

theorem exists_shown_of_part (hlen : ∀ secret ∈ secrets, 4 ≤ secret.byteLen)
    (hclear : ∀ secret ∈ secrets, ClearOfMarker secret) {s s' text : Text} (hs : s ∈ secrets)
    (hs' : s' ∈ secrets) (hpart : s' <:+: s) (hne : s' ≠ s) (hpairs : NoPairs text)
    (hin : s <:+: text) : ∃ text, NoPairs text ∧ ¬HiddenInEveryOrder secrets text := by
  obtain ⟨y, hy, hhead⟩ := exists_startsNoKey_behind s
  exact ⟨y :: s, hpairs.cons_part hin hy,
    not_hiddenInEveryOrder_of_part hlen hclear hs hs' hpart hne hy hhead⟩

theorem exists_shown_of_overlap (hlen : ∀ secret ∈ secrets, 4 ≤ secret.byteLen)
    (hclear : ∀ secret ∈ secrets, ClearOfMarker secret) {text : Text} (hpairs : NoPairs text)
    (h : ¬Separate secrets text) : ∃ text, NoPairs text ∧ ¬HiddenInEveryOrder secrets text := by
  rcases not_separate_cases h with ⟨s, hs, s', hs', hpart, hne, hin⟩ |
    ⟨u, v, d, hs, hs', hv, hd, hin⟩
  · exact exists_shown_of_part hlen hclear hs hs' hpart hne hpairs hin
  · by_cases habsent : ∀ secret ∈ secrets, ¬secret <:+: d
    · obtain ⟨y, hy, hhead⟩ := exists_startsNoKey_behind (u ++ v)
      exact ⟨_, hpairs.cons_part hin hy,
        not_hiddenInEveryOrder_of_overlap hlen hclear hs hs' hd habsent hy hhead⟩
    · -- A secret in the rest of `v ++ d` is a part of it.
      push Not at habsent
      obtain ⟨secret, hmem, hrest⟩ := habsent
      have hshorter : secret ≠ v ++ d := by
        rintro rfl
        have hle := hrest.length_le
        have hpos := List.length_pos_of_ne_nil hv
        rw [List.length_append] at hle
        omega
      exact exists_shown_of_part hlen hclear hs' hmem
        (hrest.trans (List.suffix_append v d).isInfix) hshorter hpairs
        (List.IsInfix.trans ⟨u, [], by simp⟩ hin)

/-- In every text without pairs all of the secrets is hidden, in every order, exactly when no
occurrences overlap in such texts; in a text in which none overlap, it always is. -/
theorem hidden_in_every_order_iff (secrets : List Text)
    (hlen : ∀ secret ∈ secrets, 4 ≤ secret.byteLen)
    (hclear : ∀ secret ∈ secrets, ClearOfMarker secret) :
    ((∀ text, NoPairs text → HiddenInEveryOrder secrets text) ↔
        ∀ text, NoPairs text → Separate secrets text) ∧
      ∀ text, Separate secrets text → HiddenInEveryOrder secrets text := by
  refine ⟨⟨?_, ?_⟩, fun text hsep => hiddenInEveryOrder_of_separate hclear hsep⟩
  · intro hall text hpairs
    by_contra hnot
    obtain ⟨shown, hshown, hnothidden⟩ := exists_shown_of_overlap hlen hclear hpairs hnot
    exact hnothidden (hall shown hshown)
  · exact fun hsep text hpairs => hiddenInEveryOrder_of_separate hclear (hsep text hpairs)

theorem hidden_in_every_order_iff_pair :
    let secrets : List Text := ["hunter2", "swordfish"].map String.toList
    ((∀ text, NoPairs text → HiddenInEveryOrder secrets text) ↔
        ∀ text, NoPairs text → Separate secrets text) ∧
      ∀ text, Separate secrets text → HiddenInEveryOrder secrets text :=
  hidden_in_every_order_iff _ (by decide) (by decide)

/-- The first secret takes the beginning of the second one away. -/
theorem overlapping_secrets_leave_rest :
    ¬ ∀ (secrets : List Text) (text : Text), (∀ secret ∈ secrets, 4 ≤ secret.byteLen) →
      (∀ secret ∈ secrets, ClearOfMarker secret) → NoPairs text →
      HiddenInEveryOrder secrets text := by
  intro h
  have hhidden := h (["abcd", "cdef"].map String.toList) "abcdef".toList (by decide) (by decide)
    (noPairs_of_not_mem (by decide) (by decide)) _ (List.Perm.refl _)
  have hshown := hhidden.1 "cdef".toList (by decide) "ab".toList [] (by decide) 4 (by decide)
    (by decide)
  revert hshown
  decide +kernel

end

end Redactor

end RemoteDesktopTool
