import RemoteDesktopTool.LossyUtf8

namespace RemoteDesktopTool

/-- A text and what is left of it when its bytes are decoded in pieces: a character that a cut
lies in is replaced by more than one replacement character. -/
inductive Garbled : Text → Text → Prop
  | nil : Garbled [] []
  | whole (c : Char) {text out : Text} (h : Garbled text out) : Garbled (c :: text) (c :: out)
  | cut {c : Char} (hc : 0x80 ≤ c.toNat) (n : Nat) {text out : Text} (h : Garbled text out) :
    Garbled (c :: text) (List.replicate (n + 2) Parser.replacementCharacter ++ out)

section

variable {text out : Text}

theorem Garbled.append_left (h : Garbled text out) (front : Text) :
    Garbled (front ++ text) (front ++ out) := by
  induction front with
  | nil => exact h
  | cons c front ih => exact .whole c ih

theorem Garbled.length_le (h : Garbled text out) : text.length ≤ out.length := by
  induction h with
  | nil => exact Nat.le_refl 0
  | whole c h ih => exact Nat.succ_le_succ ih
  | cut hc n h ih =>
    rw [List.length_cons, List.length_append, List.length_replicate]
    omega

theorem Garbled.mem_ascii_iff (h : Garbled text out) {c : Char} (hc : c.toNat < 0x80) :
    c ∈ out ↔ c ∈ text := by
  induction h with
  | nil => rfl
  | whole d h ih => rw [List.mem_cons, List.mem_cons, ih]
  | @cut d hd n text out h ih =>
    have hne : c ≠ d := by
      rintro rfl
      omega
    have hreplaced : c ≠ Parser.replacementCharacter := by
      rintro rfl
      exact absurd hc (by decide)
    rw [List.mem_append, List.mem_cons, ih]
    simp [hne, hreplaced]

theorem Garbled.nil_left (h : Garbled [] out) : out = [] := by
  cases h
  rfl

theorem Garbled.cons_ascii {c : Char} (h : Garbled (c :: text) out) (hc : c.toNat < 0x80) :
    ∃ out', out = c :: out' ∧ Garbled text out' := by
  cases h with
  | whole c h => exact ⟨_, rfl, h⟩
  | cut hhigh n h => omega

/-- What a text is cut into is garbled part by part. -/
theorem Garbled.split {a b : Text} (h : Garbled (a ++ b) out) :
    ∃ a' b', out = a' ++ b' ∧ Garbled a a' ∧ Garbled b b' := by
  induction a generalizing out with
  | nil => exact ⟨[], out, rfl, .nil, h⟩
  | cons c a ih =>
    cases h with
    | whole c h =>
      obtain ⟨a', b', rfl, ha, hb⟩ := ih h
      exact ⟨c :: a', b', rfl, .whole c ha, hb⟩
    | cut hc n h =>
      obtain ⟨a', b', rfl, ha, hb⟩ := ih h
      exact ⟨_, b', (List.append_assoc _ _ _).symm, .cut hc n ha, hb⟩

/-- Either nothing happened to the text, or a character in it was cut. -/
theorem Garbled.eq_or_cut (h : Garbled text out) :
    out = text ∨ ∃ a c b a' n b', text = a ++ c :: b ∧ 0x80 ≤ c.toNat ∧
      out = a' ++ (List.replicate (n + 2) Parser.replacementCharacter ++ b') ∧ Garbled a a' ∧
      Garbled b b' := by
  induction h with
  | nil => exact Or.inl rfl
  | whole c h ih =>
    rcases ih with rfl | ⟨a, d, b, a', n, b', rfl, hd, rfl, ha, hb⟩
    · exact Or.inl rfl
    · exact Or.inr ⟨c :: a, d, b, c :: a', n, b', rfl, hd, rfl, .whole c ha, hb⟩
  | cut hc n h ih => exact Or.inr ⟨[], _, _, [], n, _, rfl, hc, rfl, .nil, h⟩

end

/-- A cut through the bytes of a text lies between two characters or in one. -/
theorem asBytes_cut {text : Text} {front back : List UInt8} (h : text.asBytes = front ++ back) :
    (∃ a b : Text, text = a ++ b ∧ front = a.asBytes ∧ back = b.asBytes) ∨
      ∃ (a : Text) (c : Char) (b : Text) (part rest : List UInt8), text = a ++ c :: b ∧
        String.utf8EncodeChar c = part ++ rest ∧ part ≠ [] ∧ rest ≠ [] ∧
        front = a.asBytes ++ part ∧ back = rest ++ b.asBytes := by
  induction text generalizing front with
  | nil =>
    obtain ⟨rfl, rfl⟩ := List.append_eq_nil_iff.mp h.symm
    exact Or.inl ⟨[], [], rfl, rfl, rfl⟩
  | cons c text ih =>
    have hsplit : String.utf8EncodeChar c ++ Text.asBytes text = front ++ back := h
    rcases List.append_eq_append_iff.mp hsplit with ⟨front', rfl, hrest⟩ | ⟨rest, hchar, hback⟩
    · rcases ih hrest with ⟨a, b, rfl, rfl, rfl⟩ |
        ⟨a, d, b, part, rest, rfl, hd, hpart, hne, rfl, rfl⟩
      · exact Or.inl ⟨c :: a, b, rfl, rfl, rfl⟩
      · refine Or.inr ⟨c :: a, d, b, part, rest, rfl, hd, hpart, hne, ?_, rfl⟩
        simp [Text.asBytes]
    · by_cases hfront : front = []
      · subst hfront
        rw [List.nil_append] at h
        exact Or.inl ⟨[], c :: text, rfl, rfl, h.symm⟩
      · by_cases hrest : rest = []
        · subst hrest
          rw [List.append_nil] at hchar
          exact Or.inl ⟨[c], text, rfl, by simp [Text.asBytes, hchar], hback⟩
        · exact Or.inr ⟨[], c, text, front, rest, rfl, hchar, hfront, hrest, rfl, hback⟩

theorem fromUtf8Lossy_nil : fromUtf8Lossy [] = [] := fromUtf8Lossy_asBytes []

/-- The pieces of a text, behind the rest of a character that was cut before. -/
theorem garbled_flatMap {pieces : List (List UInt8)} {tail : List UInt8} {text : Text}
    (h : pieces.flatten = tail ++ text.asBytes) (htail : ∀ byte ∈ tail, IsContinuation byte) :
    ∃ out, Garbled text out ∧
      pieces.flatMap fromUtf8Lossy =
        List.replicate tail.length Parser.replacementCharacter ++ out := by
  induction pieces generalizing tail text with
  | nil =>
    obtain ⟨rfl, htext⟩ := List.append_eq_nil_iff.mp h.symm
    obtain rfl : text = [] := asBytes_injective htext
    exact ⟨[], .nil, rfl⟩
  | cons piece pieces ih =>
    rw [List.flatten_cons] at h
    rw [List.flatMap_cons]
    rcases List.append_eq_append_iff.mp h with ⟨tail', rfl, hrest⟩ | ⟨front, rfl, hrest⟩
    · obtain ⟨out, hout, hpieces⟩ := ih hrest fun b hb => htail b (List.mem_append_right _ hb)
      have hpiece := fromUtf8Lossy_continuation
        (fun b hb => htail b (List.mem_append_left tail' hb)) []
      rw [List.append_nil, fromUtf8Lossy_nil, List.append_nil] at hpiece
      refine ⟨out, hout, ?_⟩
      rw [hpiece, hpieces, List.length_append, List.replicate_add, List.append_assoc]
    · rw [fromUtf8Lossy_continuation htail]
      rcases asBytes_cut hrest with ⟨a, b, rfl, rfl, hback⟩ |
        ⟨a, c, b, part, rest, rfl, hc, hpart, hne, rfl, hback⟩
      · have hnone : ∀ byte ∈ ([] : List UInt8), IsContinuation byte :=
          fun _ h => absurd h List.not_mem_nil
        obtain ⟨out, hout, hpieces⟩ := ih hback hnone
        refine ⟨a ++ out, hout.append_left a, ?_⟩
        rw [fromUtf8Lossy_asBytes, hpieces, List.append_assoc]
        rfl
      · obtain ⟨hpiece, hcontinued⟩ := fromUtf8Lossy_part hc hpart hne
        obtain ⟨out, hout, hpieces⟩ := ih hback hcontinued
        have hhigh := toNat_of_cut hc hpart hne
        have hlen := List.length_pos_of_ne_nil hne
        refine ⟨_, (Garbled.cut hhigh (rest.length - 1) hout).append_left a, ?_⟩
        rw [fromUtf8Lossy_asBytes_append, hpiece, hpieces,
          show rest.length - 1 + 2 = rest.length + 1 by omega, List.replicate_succ]
        simp only [List.append_assoc, List.cons_append, List.nil_append]

theorem garbled_flatMap_asBytes {pieces : List (List UInt8)} {text : Text}
    (h : pieces.flatten = text.asBytes) :
    ∃ out, Garbled text out ∧ pieces.flatMap fromUtf8Lossy = out :=
  garbled_flatMap (List.nil_append _ ▸ h) fun _ h => absurd h List.not_mem_nil

end RemoteDesktopTool
