import RemoteDesktopTool.Origins
import RemoteDesktopTool.ScrubbedPairs

namespace RemoteDesktopTool

theorem toLower_cases (c : Char) :
    c.toLower = c ∨ c.isAlphanum = true ∧ c.toLower.isAlphanum = true := by
  have hall : ∀ n < 128, (Char.ofNat n).toLower = Char.ofNat n ∨
      (Char.ofNat n).isAlphanum = true ∧ (Char.ofNat n).toLower.isAlphanum = true := by
    decide
  by_cases hlow : c.toNat < 128
  · have hc := hall c.toNat hlow
    rwa [Char.ofNat_toNat] at hc
  · refine Or.inl (dif_neg ?_)
    rintro ⟨-, hle⟩
    have hZ : 'Z'.val.toNat = 0x5A := by decide
    have hval : c.val.toNat = c.toNat := rfl
    rw [UInt32.le_iff_toNat_le, hZ, hval] at hle
    omega

theorem isKeyChar_of_isAlphanum {c : Char} (h : c.isAlphanum = true) : isKeyChar c = true := by
  simp [isKeyChar, h]

theorem isKeyChar_toLower (c : Char) : isKeyChar c.toLower = isKeyChar c := by
  rcases toLower_cases c with h | ⟨hc, hlower⟩
  · rw [h]
  · rw [isKeyChar_of_isAlphanum hc, isKeyChar_of_isAlphanum hlower]

theorem endsValue_toLower (headerStyle : Bool) (c : Char) :
    endsValue headerStyle c.toLower = endsValue headerStyle c := by
  have hgoes : ∀ d : Char, d.isAlphanum = true → endsValue headerStyle d = false := by
    intro d hd
    by_contra hend
    have hnot := isKeyChar_of_endsValue (Bool.not_eq_false _ ▸ hend)
    rw [isKeyChar_of_isAlphanum hd] at hnot
    cases hnot
  rcases toLower_cases c with h | ⟨hc, hlower⟩
  · rw [h]
  · rw [hgoes c hc, hgoes _ hlower]

/-- Two spellings of one letter, or the same character. -/
def SameLetter (c d : Char) : Prop := c.toLower = d.toLower

theorem SameLetter.isKeyChar {c d : Char} (h : SameLetter c d) : isKeyChar c = isKeyChar d := by
  rw [← isKeyChar_toLower c, h, isKeyChar_toLower]

theorem SameLetter.endsValue {c d : Char} (h : SameLetter c d) (headerStyle : Bool) :
    endsValue headerStyle c = endsValue headerStyle d := by
  rw [← endsValue_toLower headerStyle c, h, endsValue_toLower]

theorem SameLetter.eq_iff {c d x : Char} (h : SameLetter c d)
    (hx : RemoteDesktopTool.isKeyChar x = false) : c = x ↔ d = x := by
  have heq : ∀ a b : Char, SameLetter a b → a = x → b = x := by
    rintro a b hab rfl
    have hb : RemoteDesktopTool.isKeyChar b = false := hab.isKeyChar ▸ hx
    have hsame : ∀ e : Char, RemoteDesktopTool.isKeyChar e = false → e.toLower = e := by
      intro e he
      rcases toLower_cases e with h | ⟨halnum, _⟩
      · exact h
      · rw [isKeyChar_of_isAlphanum halnum] at he
        cases he
    rw [← hsame b hb, ← hab, hsame a hx]
  exact ⟨heq c d h, heq d c h.symm⟩

/-- The text in another spelling: its letters may differ in case. -/
def SameLetters (text variant : Text) : Prop := List.Forall₂ SameLetter text variant

theorem SameLetters.eqIgnoreAsciiCase {text variant : Text} (h : SameLetters text variant) :
    text.map Char.toLower = variant.map Char.toLower := by
  induction h with
  | nil => rfl
  | cons hc h ih => rw [List.map_cons, List.map_cons, ih, hc]

theorem SameLetters.of_eqIgnoreAsciiCase {k k' : Text} (h : k.eqIgnoreAsciiCase k' = true) :
    SameLetters k k' := by
  rw [Text.eqIgnoreAsciiCase, decide_eq_true_iff] at h
  have hmaps : List.Forall₂ (· = ·) (k.map Char.toLower) (k'.map Char.toLower) :=
    List.forall₂_eq_eq_eq ▸ h
  rwa [List.forall₂_map_left_iff, List.forall₂_map_right_iff] at hmaps

theorem sameLetters_refl (text : Text) : SameLetters text text :=
  List.forall₂_same.mpr fun _ _ => rfl

theorem SameLetters.keyBefore {text variant : Text} (h : SameLetters text variant) :
    SameLetters (keyBefore id text) (keyBefore id variant) := by
  have hfront : ∀ {a b : Text}, SameLetters a b →
      SameLetters (a.takeWhile isKeyChar) (b.takeWhile isKeyChar) := by
    intro a b h
    induction h with
    | nil => exact .nil
    | @cons c d a b hc h ih =>
      rw [List.takeWhile_cons, List.takeWhile_cons, ← hc.isKeyChar]
      split
      · exact .cons hc ih
      · exact .nil
  exact List.rel_reverse (hfront (List.rel_reverse h))

section

variable {key key' : Text}

theorem SameLetters.isSensitiveKey (h : SameLetters key key') :
    IsSensitiveKey key ↔ IsSensitiveKey key' := by
  unfold IsSensitiveKey Text.eqIgnoreAsciiCase
  rw [h.eqIgnoreAsciiCase]

/-- The comparison with a whole key ignores case; that with the end of the key does not. -/
theorem SameLetters.isSensitive_eq_iff (h : SameLetters key key') :
    isSensitive key = isSensitive key' ↔
      IsSensitiveKey key ∨ (EndsInSensitiveKey key ↔ EndsInSensitiveKey key') := by
  have hkey := h.isSensitiveKey
  rw [Bool.eq_iff_iff, isSensitive_iff, isSensitive_iff, ← hkey]
  tauto

end

namespace ScanState

/-- The states of two scans that have read the same letters. -/
inductive Alike : ScanState → ScanState → Prop
  | key (run run' : Text) : Alike (key run) (key run')
  | colon (run run' : Text) : Alike (colon run) (colon run')
  | opened (headerStyle sensitive sensitive' : Bool) :
    Alike (value headerStyle sensitive false) (value headerStyle sensitive' false)
  | inside (headerStyle sensitive : Bool) :
    Alike (value headerStyle sensitive true) (value headerStyle sensitive true)

/-- If the next character begins a value, both scans hide it or neither does. -/
def AgreeAt (s s' : ScanState) (c : Char) : Prop :=
  ∀ headerStyle sensitive sensitive', s = value headerStyle sensitive false →
    s' = value headerStyle sensitive' false → endsValue headerStyle c = false →
    sensitive = sensitive'

variable {s s' : ScanState} {c c' : Char}

theorem alike_outside (run run' : Text) (hc : SameLetter c c') :
    Alike (outside run c) (outside run' c') := by
  have heq : c = '=' ↔ c' = '=' := hc.eq_iff (by decide)
  have hcolon : c = ':' ↔ c' = ':' := hc.eq_iff (by decide)
  unfold outside
  simp only [← heq, ← hcolon, ← hc.isKeyChar]
  split
  · exact .opened _ _ _
  · split
    · exact .colon _ _
    · split
      · exact .key _ _
      · exact .key _ _

theorem Alike.step (h : Alike s s') (hc : SameLetter c c') (hagree : AgreeAt s s' c) :
    Alike (s.step c) (s'.step c') := by
  have hspace : c = ' ' ↔ c' = ' ' := hc.eq_iff (by decide)
  cases h with
  | key run run' => exact alike_outside run run' hc
  | colon run run' =>
    unfold ScanState.step
    simp only [← hspace]
    split
    · exact .opened _ _ _
    · exact alike_outside [] [] hc
  | opened headerStyle sensitive sensitive' =>
    unfold ScanState.step
    simp only [← hc.endsValue]
    split
    · exact .key _ _
    next hgoes =>
      rw [hagree headerStyle sensitive sensitive' rfl rfl (by simpa using hgoes)]
      exact .inside _ _
  | inside headerStyle sensitive =>
    unfold ScanState.step
    simp only [← hc.endsValue]
    split
    · exact .key _ _
    · exact .inside _ _

def InValue (s : ScanState) : Prop :=
  ∃ headerStyle sensitive begun, s = value headerStyle sensitive begun

/-- A separator that does not stand in a value opens one, and the key in front of it decides
whether it is hidden. -/
theorem after_separator {before : Text} (h : ¬(after before).InValue) (headerStyle : Bool) :
    after (before ++ separatorText headerStyle) =
      value headerStyle (isSensitive (RemoteDesktopTool.keyBefore id before)) false := by
  have hdescribes := describes_after before
  rw [after_append]
  generalize after before = s at h hdescribes
  cases s with
  | key run =>
    rw [show RemoteDesktopTool.keyBefore id before = run from hdescribes]
    cases headerStyle <;> rfl
  | colon run =>
    obtain ⟨front, rfl, _⟩ := hdescribes
    have hkey : RemoteDesktopTool.keyBefore id (front ++ [':']) = [] := by
      rw [keyBefore_concat]
      rfl
    rw [hkey]
    cases headerStyle <;> rfl
  | value header sensitive begun => exact absurd ⟨_, _, _, rfl⟩ h

theorem before_of_after_eq {front : Text} {headerStyle sensitive : Bool}
    (h : after front = value headerStyle sensitive false) :
    ∃ before, front = before ++ separatorText headerStyle ∧ ¬(after before).InValue ∧
      isSensitive (RemoteDesktopTool.keyBefore id before) = sensitive := by
  have hdescribes := describes_after front
  rw [h] at hdescribes
  obtain ⟨before, rfl, hkey⟩ := hdescribes rfl
  refine ⟨before, rfl, ?_, hkey⟩
  rintro ⟨header, sens, begun, hbefore⟩
  rw [after_append, hbefore] at h
  cases headerStyle with
  | false =>
    have hstep : ['='].foldl step (value header sens begun) = value header sens true :=
      if_neg (by rw [endsValue_separator header (Or.inl rfl)]; decide)
    rw [show separatorText false = ['='] from rfl, hstep] at h
    cases h
  | true =>
    have hstep : step (value header sens begun) ':' = value header sens true :=
      if_neg (by rw [endsValue_separator header (Or.inr rfl)]; decide)
    rw [show separatorText true = [':', ' '] from rfl, List.foldl_cons, hstep] at h
    cases header <;> cases h

end ScanState

def originsFrom (s : ScanState) (n : Nat) (text : Text) : List (Option Nat) :=
  (scrubFrom Prod.fst numberedMark s (numbered n text)).map Prod.snd

theorem originsFrom_cons (s : ScanState) (n : Nat) (c : Char) (text : Text) :
    originsFrom s n (c :: text) =
      (emit Prod.fst numberedMark s ((c, some n) : Numbered)).map Prod.snd ++
        originsFrom (s.step c) (n + 1) text := by
  rw [originsFrom, numbered_cons, scrubFrom, List.map_append]
  rfl

section

variable {s s' : ScanState} {c c' : Char} {text variant : Text}

theorem originsFrom_cons_kept (hkept : ∀ headerStyle begun, s = .value headerStyle true begun →
    endsValue headerStyle c = true) (n : Nat) (text : Text) :
    originsFrom s n (c :: text) = some n :: originsFrom (s.step c) (n + 1) text := by
  have hemit : emit Prod.fst numberedMark s ((c, some n) : Numbered) = [(c, some n)] :=
    emit_kept hkept
  rw [originsFrom_cons, hemit, List.map_singleton, List.singleton_append]

theorem originsFrom_cons_hidden {headerStyle : Bool} (hgoes : endsValue headerStyle c = false)
    (begun : Bool) (n : Nat) (text : Text) :
    originsFrom (.value headerStyle true begun) n (c :: text) =
      (if begun then [] else numberedMark.map Prod.snd) ++
        originsFrom (.value headerStyle true true) (n + 1) text := by
  have hstep : ScanState.step (.value headerStyle true begun) c = .value headerStyle true true := by
    simp [ScanState.step, hgoes]
  rw [originsFrom_cons, hstep]
  cases begun <;> simp [emit, hgoes]

theorem originsFrom_copied_ne_hidden {headerStyle : Bool}
    (hgoes : endsValue headerStyle c' = false) (n : Nat) (text variant : Text) :
    originsFrom (.value headerStyle false false) n (c :: text) ≠
      originsFrom (.value headerStyle true false) n (c' :: variant) := by
  rw [originsFrom_cons_kept (fun _ _ h => by cases h), originsFrom_cons_hidden hgoes]
  intro h
  have hhead := congrArg List.head? h
  simp [head_numberedMark] at hhead

/-- The values that both scans come to are hidden in both or in neither. -/
theorem originsFrom_opened_iff (hc : SameLetter c c') {headerStyle : Bool}
    (hgoes : endsValue headerStyle c = false) (sensitive sensitive' : Bool) (n : Nat)
    (text variant : Text) :
    originsFrom (.value headerStyle sensitive false) n (c :: text) =
        originsFrom (.value headerStyle sensitive' false) n (c' :: variant) ↔
      sensitive = sensitive' ∧ originsFrom (.value headerStyle sensitive true) (n + 1) text =
        originsFrom (.value headerStyle sensitive' true) (n + 1) variant := by
  have hgoes' := (hc.endsValue headerStyle).symm.trans hgoes
  have hkept : ∀ d text, endsValue headerStyle d = false →
      originsFrom (.value headerStyle false false) n (d :: text) =
        some n :: originsFrom (.value headerStyle false true) (n + 1) text := by
    intro d text hd
    rw [originsFrom_cons_kept (fun _ _ h => by cases h)]
    simp [ScanState.step, hd]
  cases sensitive <;> cases sensitive'
  · rw [hkept c text hgoes, hkept c' variant hgoes', List.cons.injEq]
    simp
  · exact iff_of_false (originsFrom_copied_ne_hidden hgoes' n text variant) (by simp)
  · exact iff_of_false (originsFrom_copied_ne_hidden hgoes n variant text).symm (by simp)
  · rw [originsFrom_cons_hidden hgoes, originsFrom_cons_hidden hgoes']
    simp

/-- The end of a value is kept, whatever its key is. -/
theorem kept_of_endsValue {headerStyle sensitive begun : Bool}
    (hgoes : endsValue headerStyle c = true) (header begun' : Bool)
    (h : ScanState.value headerStyle sensitive begun = .value header true begun') :
    endsValue header c = true := by
  cases h
  exact hgoes

/-- Where both scans keep their characters, they go on alike. -/
theorem originsFrom_copied_iff (hagree : ScanState.AgreeAt s s' c)
    (hkept : ∀ headerStyle begun, s = .value headerStyle true begun →
      endsValue headerStyle c = true)
    (hkept' : ∀ headerStyle begun, s' = .value headerStyle true begun →
      endsValue headerStyle c' = true) (n : Nat) (text variant : Text) :
    originsFrom s n (c :: text) = originsFrom s' n (c' :: variant) ↔
      ScanState.AgreeAt s s' c ∧
        originsFrom (s.step c) (n + 1) text = originsFrom (s'.step c') (n + 1) variant := by
  rw [originsFrom_cons_kept hkept, originsFrom_cons_kept hkept', List.cons.injEq]
  simp [hagree]

/-- One step of both scans. -/
theorem ScanState.Alike.origins_iff (h : Alike s s') (hc : SameLetter c c') (n : Nat)
    (text variant : Text) :
    originsFrom s n (c :: text) = originsFrom s' n (c' :: variant) ↔
      AgreeAt s s' c ∧
        originsFrom (s.step c) (n + 1) text = originsFrom (s'.step c') (n + 1) variant := by
  cases h with
  | key run run' =>
    exact originsFrom_copied_iff (fun _ _ _ h => by cases h) (fun _ _ h => by cases h)
      (fun _ _ h => by cases h) n text variant
  | colon run run' =>
    exact originsFrom_copied_iff (fun _ _ _ h => by cases h) (fun _ _ h => by cases h)
      (fun _ _ h => by cases h) n text variant
  | opened headerStyle sensitive sensitive' =>
    have hends := hc.endsValue headerStyle
    cases hgoes : endsValue headerStyle c with
    | true =>
      have hagree : AgreeAt (.value headerStyle sensitive false)
          (.value headerStyle sensitive' false) c := by
        intro header sens sens' h _ hnot
        cases h
        rw [hgoes] at hnot
        cases hnot
      exact originsFrom_copied_iff hagree (kept_of_endsValue hgoes)
        (kept_of_endsValue (hends.symm.trans hgoes)) n text variant
    | false =>
      have hstep : ScanState.step (.value headerStyle sensitive false) c =
          .value headerStyle sensitive true := by
        simp [ScanState.step, hgoes]
      have hstep' : ScanState.step (.value headerStyle sensitive' false) c' =
          .value headerStyle sensitive' true := by
        simp [ScanState.step, ← hends, hgoes]
      have hagree : AgreeAt (.value headerStyle sensitive false)
          (.value headerStyle sensitive' false) c ↔ sensitive = sensitive' := by
        constructor
        · exact fun h => h headerStyle sensitive sensitive' rfl rfl hgoes
        · rintro rfl header sens sens' h h' _
          cases h
          cases h'
          rfl
      rw [hagree, hstep, hstep']
      exact originsFrom_opened_iff hc hgoes sensitive sensitive' n text variant
  | inside headerStyle sensitive =>
    have hends := hc.endsValue headerStyle
    have hagree : AgreeAt (.value headerStyle sensitive true) (.value headerStyle sensitive true)
        c := fun _ _ _ h => by cases h
    cases hgoes : endsValue headerStyle c with
    | true =>
      exact originsFrom_copied_iff hagree (kept_of_endsValue hgoes)
        (kept_of_endsValue (hends.symm.trans hgoes)) n text variant
    | false =>
      cases sensitive with
      | false =>
        exact originsFrom_copied_iff hagree (fun _ _ h => by cases h) (fun _ _ h => by cases h)
          n text variant
      | true =>
        rw [hgoes] at hends
        rw [originsFrom_cons_hidden hgoes, originsFrom_cons_hidden hends.symm]
        simp [hagree, ScanState.step, hgoes, ← hends]

/-- All of both scans. -/
theorem ScanState.Alike.origins_run_iff (h : Alike s s') (hsame : SameLetters text variant)
    (n : Nat) :
    originsFrom s n text = originsFrom s' n variant ↔
      ∀ a c b a' c' b', text = a ++ c :: b → variant = a' ++ c' :: b' → a.length = a'.length →
        AgreeAt (a.foldl ScanState.step s) (a'.foldl ScanState.step s') c := by
  induction hsame generalizing s s' n with
  | nil =>
    refine iff_of_true rfl ?_
    intro a c b a' c' b' hsplit
    simp at hsplit
  | @cons c c' text variant hc hsame ih =>
    rw [h.origins_iff hc]
    constructor
    · rintro ⟨hagree, hrest⟩ a d b a' d' b' hsplit hsplit' hlen
      cases a with
      | nil =>
        obtain rfl := List.length_eq_zero_iff.mp hlen.symm
        obtain ⟨rfl, _⟩ := List.cons.inj hsplit
        exact hagree
      | cons x a =>
        cases a' with
        | nil => cases hlen
        | cons x' a' =>
          obtain ⟨rfl, htext⟩ := List.cons.inj hsplit
          obtain ⟨rfl, hvariant⟩ := List.cons.inj hsplit'
          exact (ih (h.step hc hagree) (n + 1)).mp hrest a d b a' d' b' htext hvariant
            (Nat.succ.inj hlen)
    · intro hall
      have hagree : AgreeAt s s' c := hall [] c text [] c' variant rfl rfl rfl
      refine ⟨hagree, (ih (h.step hc hagree) (n + 1)).mpr ?_⟩
      intro a d b a' d' b' hsplit hsplit' hlen
      exact hall (c :: a) d b (c' :: a') d' b' (by rw [hsplit, List.cons_append])
        (by rw [hsplit', List.cons_append]) (by rw [List.length_cons, List.length_cons, hlen])

end

namespace Redactor

theorem new_origins (text : Text) : new.origins text = originsFrom (.key []) 0 text :=
  congrArg (List.map Prod.snd) (scrubSensitivePairs_eq (numbered 0 text))

/-- The same text, but for the case of identifier characters directly in front of a
separator. -/
inductive KeyCaseVariant : Text → Text → Prop
  | nil : KeyCaseVariant [] []
  | same (c : Char) {text variant : Text} (h : KeyCaseVariant text variant) :
    KeyCaseVariant (c :: text) (c :: variant)
  | key {k k' : Text} (hk : ∀ c ∈ k, isKeyChar c = true) (hcase : k.eqIgnoreAsciiCase k' = true)
    (headerStyle : Bool) {text variant : Text} (h : KeyCaseVariant text variant) :
    KeyCaseVariant (k ++ separatorText headerStyle ++ text)
      (k' ++ separatorText headerStyle ++ variant)

theorem KeyCaseVariant.sameLetters {text variant : Text} (h : KeyCaseVariant text variant) :
    SameLetters text variant := by
  induction h with
  | nil => exact .nil
  | same c h ih => exact .cons rfl ih
  | key hk hcase headerStyle h ih =>
    exact List.rel_append (List.rel_append (SameLetters.of_eqIgnoreAsciiCase hcase)
      (sameLetters_refl (separatorText headerStyle))) ih

/-- Wherever both texts have a pair with a value, outside the value of an earlier one, its key is
a sensitive one, ignoring case, or ends in one in both spellings or in neither. -/
def KeysAgree (text variant : Text) : Prop :=
  ∀ headerStyle before c rest before' c' rest',
    text = before ++ separatorText headerStyle ++ c :: rest →
    variant = before' ++ separatorText headerStyle ++ c' :: rest' →
    before.length = before'.length → ¬(ScanState.after before).InValue →
    ¬(ScanState.after before').InValue → endsValue headerStyle c = false →
    IsSensitiveKey (keyBefore id before) ∨
      (EndsInSensitiveKey (keyBefore id before) ↔ EndsInSensitiveKey (keyBefore id before'))

theorem sameLetters_left {a b a' b' : Text} (h : SameLetters (a ++ b) (a' ++ b'))
    (hlen : a.length = a'.length) : SameLetters a a' := by
  have htake := List.forall₂_take a.length h
  rwa [List.take_left, hlen, List.take_left] at htake

/-- A text and a variant of it have the same values replaced exactly when their keys agree. -/
theorem same_origins_iff {text variant : Text} (h : KeyCaseVariant text variant) :
    new.origins text = new.origins variant ↔ KeysAgree text variant := by
  have hsame := h.sameLetters
  rw [new_origins, new_origins, (ScanState.Alike.key [] []).origins_run_iff hsame 0]
  constructor
  · intro hall headerStyle before c rest before' c' rest' htext hvariant hlen hout hout' hgoes
    have hkeys : SameLetters before before' := by
      rw [htext, hvariant, List.append_assoc, List.append_assoc] at hsame
      exact sameLetters_left hsame hlen
    refine hkeys.keyBefore.isSensitive_eq_iff.mp ?_
    exact hall _ c rest _ c' rest' htext hvariant (by simp [hlen]) headerStyle _ _
      (ScanState.after_separator hout headerStyle) (ScanState.after_separator hout' headerStyle)
      hgoes
  · intro hkeys a c b a' c' b' htext hvariant hlen headerStyle sensitive sensitive' hs hs' hgoes
    obtain ⟨before, rfl, hout, rfl⟩ := ScanState.before_of_after_eq hs
    obtain ⟨before', rfl, hout', rfl⟩ := ScanState.before_of_after_eq hs'
    have hlen' : before.length = before'.length := by simpa using hlen
    have hfronts : SameLetters before before' := by
      rw [htext, hvariant, List.append_assoc, List.append_assoc] at hsame
      exact sameLetters_left hsame hlen'
    refine hfronts.keyBefore.isSensitive_eq_iff.mpr ?_
    exact hkeys headerStyle before c b before' c' b' htext hvariant hlen' hout hout' hgoes

theorem same_origins_iff_password :
    new.origins "PASSWORD=v".toList = new.origins "password=v".toList ↔
      KeysAgree "PASSWORD=v".toList "password=v".toList :=
  have hcase : Text.eqIgnoreAsciiCase "PASSWORD".toList "password".toList = true := by decide
  same_origins_iff (.key (List.all_eq_true.mp (by decide)) hcase false (.same 'v' .nil))

/-- The whole key is compared without regard to case, its end is not. -/
theorem prefixed_key_in_upper_case :
    ¬ ∀ text variant, KeyCaseVariant text variant →
      new.origins text = new.origins variant := by
  intro h
  have hcase : Text.eqIgnoreAsciiCase "DB_PASSWORD".toList "db_password".toList = true := by
    decide
  have hsame := h "DB_PASSWORD=v".toList "db_password=v".toList
    (.key (List.all_eq_true.mp (by decide)) hcase false (.same 'v' .nil))
  revert hsame
  decide +kernel

end Redactor

end RemoteDesktopTool
