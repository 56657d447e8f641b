import RemoteDesktopTool.Strings

namespace RemoteDesktopTool

/-- The parts of a text in front of a byte index and behind it; there are none when the index is
behind the end or inside a character. -/
def Text.splitAtByte : Nat → Text → Option (Text × Text)
  | 0, text => some ([], text)
  | _ + 1, [] => none
  | n + 1, c :: text =>
    if c.utf8Size ≤ n + 1 then
      (Text.splitAtByte (n + 1 - c.utf8Size) text).map fun parts => (c :: parts.1, parts.2)
    else none

/-- `&text[start..stop]`, which panics where this is `none`. -/
def Text.slice (start stop : Nat) (text : Text) : Option Text :=
  (text.splitAtByte start).bind fun parts =>
    (parts.2.splitAtByte (stop - start)).map Prod.fst

namespace Text

variable {c : Char} {front rest text : Text} {n : Nat}

@[simp] theorem byteLen_nil : byteLen [] = 0 := rfl

theorem byteLen_cons (c : Char) (text : Text) :
    byteLen (c :: text) = c.utf8Size + text.byteLen := by
  rw [byteLen, asBytes, List.flatMap_cons, List.length_append, String.length_utf8EncodeChar]
  rfl

theorem byteLen_append (front rest : Text) :
    byteLen (front ++ rest) = front.byteLen + rest.byteLen := by
  induction front with
  | nil => simp
  | cons c front ih => rw [List.cons_append, byteLen_cons, byteLen_cons, ih, Nat.add_assoc]

theorem splitAtByte_zero (text : Text) : splitAtByte 0 text = some ([], text) := by
  cases text <;> rfl

theorem splitAtByte_cons (h : c.utf8Size ≤ n) : splitAtByte n (c :: text) =
    (splitAtByte (n - c.utf8Size) text).map fun parts => (c :: parts.1, parts.2) := by
  have hpos := c.utf8Size_pos
  cases n with
  | zero => omega
  | succ n => exact if_pos h

theorem splitAtByte_append (front rest : Text) :
    splitAtByte front.byteLen (front ++ rest) = some (front, rest) := by
  induction front with
  | nil => exact splitAtByte_zero rest
  | cons c front ih =>
    rw [byteLen_cons, List.cons_append, splitAtByte_cons (Nat.le_add_right _ _),
      Nat.add_sub_cancel_left, ih]
    rfl

theorem splitAtByte_eq_some (h : splitAtByte n text = some (front, rest)) :
    text = front ++ rest ∧ front.byteLen = n := by
  induction text generalizing n front with
  | nil =>
    cases n with
    | zero =>
      obtain ⟨rfl, rfl⟩ := Prod.mk.inj (Option.some.inj h)
      exact ⟨rfl, rfl⟩
    | succ n => cases h
  | cons c text ih =>
    cases n with
    | zero =>
      obtain ⟨rfl, rfl⟩ := Prod.mk.inj (Option.some.inj h)
      exact ⟨rfl, rfl⟩
    | succ n =>
      by_cases hc : c.utf8Size ≤ n + 1
      · rw [splitAtByte_cons hc] at h
        obtain ⟨⟨before, behind⟩, hsplit, hparts⟩ := Option.map_eq_some_iff.mp h
        obtain ⟨rfl, rfl⟩ := Prod.mk.inj hparts
        obtain ⟨rfl, hlen⟩ := ih hsplit
        refine ⟨rfl, ?_⟩
        rw [byteLen_cons, hlen]
        omega
      · rw [splitAtByte, if_neg hc] at h
        cases h

/-- A slice that starts at a boundary. -/
theorem slice_append (front rest : Text) (stop : Nat) :
    slice front.byteLen stop (front ++ rest) =
      (rest.splitAtByte (stop - front.byteLen)).map Prod.fst := by
  rw [slice, splitAtByte_append]
  rfl

end Text

end RemoteDesktopTool
