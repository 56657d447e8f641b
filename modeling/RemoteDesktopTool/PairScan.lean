import RemoteDesktopTool.Redact

namespace RemoteDesktopTool

/-- Where a scan for pairs stands after some text: behind a run of identifier characters,
behind a run and a colon, or in the value of a pair, begun or not. -/
inductive ScanState
  | key (run : Text)
  | colon (run : Text)
  | value (headerStyle sensitive begun : Bool)
deriving DecidableEq

namespace ScanState

def outside (run : Text) (c : Char) : ScanState :=
  if c = '=' then value false (isSensitive run) false
  else if c = ':' then colon run
  else if isKeyChar c then key (run ++ [c])
  else key []

def step (s : ScanState) (c : Char) : ScanState :=
  match s with
  | key run => outside run c
  | colon run => if c = ' ' then value true (isSensitive run) false else outside [] c
  | value headerStyle sensitive _ =>
    if endsValue headerStyle c then key [] else value headerStyle sensitive true

def after (text : Text) : ScanState := text.foldl step (key [])

theorem after_append (a b : Text) : after (a ++ b) = b.foldl step (after a) := List.foldl_append

def InSensitive (s : ScanState) : Prop := ∃ headerStyle begun, s = value headerStyle true begun

def InInnocuous (s : ScanState) : Prop := ∃ headerStyle begun, s = value headerStyle false begun

/-- The value goes on with everything that does not end it. -/
theorem foldl_step_value {headerStyle sensitive begun : Bool} {text : Text}
    (h : ∀ c ∈ text, endsValue headerStyle c = false) :
    text.foldl step (value headerStyle sensitive begun) =
      value headerStyle sensitive (begun || !text.isEmpty) := by
  induction text generalizing begun with
  | nil => simp
  | cons c text ih =>
    have hc := h c (by simp)
    have hstep : step (value headerStyle sensitive begun) c = value headerStyle sensitive true := by
      simp [step, hc]
    rw [List.foldl_cons, hstep, ih fun c' hc' => h c' (List.mem_cons_of_mem c hc')]
    simp

end ScanState

section

universe u

variable {τ : Type u} (ch : τ → Char) (mark : List τ)

/-- What one token leaves in the output: itself, or the mark in place of the value of a
sensitive pair. -/
def emit (s : ScanState) (t : τ) : List τ :=
  match s with
  | .value headerStyle true begun =>
    if endsValue headerStyle (ch t) then [t] else if begun then [] else mark
  | _ => [t]

def scrubFrom (s : ScanState) : List τ → List τ
  | [] => []
  | t :: rest => emit ch mark s t ++ scrubFrom (s.step (ch t)) rest

variable {ch mark}

theorem scrubFrom_append (s : ScanState) (a b : List τ) :
    scrubFrom ch mark s (a ++ b) =
      scrubFrom ch mark s a ++ scrubFrom ch mark ((a.map ch).foldl ScanState.step s) b := by
  induction a generalizing s with
  | nil => rfl
  | cons t a ih => simp only [List.cons_append, scrubFrom, ih, List.map_cons, List.foldl_cons,
      List.append_assoc]

theorem scrubFrom_value {headerStyle sensitive begun : Bool} {value : List τ}
    (h : ∀ t ∈ value, endsValue headerStyle (ch t) = false) :
    scrubFrom ch mark (.value headerStyle sensitive begun) value =
      if sensitive then (if begun || value.isEmpty then [] else mark) else value := by
  induction value generalizing begun with
  | nil => cases sensitive <;> simp [scrubFrom]
  | cons t value ih =>
    have ht := h t (by simp)
    have hstep : ScanState.step (.value headerStyle sensitive begun) (ch t) =
        .value headerStyle sensitive true := by
      simp [ScanState.step, ht]
    rw [scrubFrom, hstep, ih fun t' ht' => h t' (List.mem_cons_of_mem t ht')]
    cases sensitive with
    | true => cases begun <;> simp [emit, ht]
    | false => simp [emit]

theorem separatorLen_cases (ch : τ → Char) (t : τ) (next : List τ) :
    separatorLen ch (t :: next) = 0 ∧ ch t ≠ '=' ∧ (ch t = ':' → ∀ t' ∈ next.head?, ch t' ≠ ' ') ∨
      separatorLen ch (t :: next) = 1 ∧ ch t = '=' ∨
      separatorLen ch (t :: next) = 2 ∧ ch t = ':' ∧
        ∃ t' next', next = t' :: next' ∧ ch t' = ' ' := by
  unfold separatorLen
  split
  next tail h =>
    exact Or.inr (Or.inl ⟨rfl, (List.cons.inj h).1⟩)
  next tail h =>
    obtain ⟨ht, hnext⟩ := List.cons.inj h
    obtain ⟨t', next', rfl, ht', _⟩ := List.map_eq_cons_iff.mp hnext
    exact Or.inr (Or.inr ⟨rfl, ht, t', next', rfl, ht'⟩)
  next heq hcolon =>
    refine Or.inl ⟨rfl, fun h => heq _ (by rw [List.map_cons, h]), ?_⟩
    intro h t' ht' hspace
    cases next with
    | nil => cases ht'
    | cons t'' next =>
      cases ht'
      exact hcolon (next.map ch) (by rw [List.map_cons, List.map_cons, h, hspace])

theorem endsValue_separator (headerStyle : Bool) {c : Char} (h : c = '=' ∨ c = ':') :
    endsValue headerStyle c = false := by
  rcases h with rfl | rfl <;> cases headerStyle <;> decide

theorem isKeyChar_of_endsValue {headerStyle : Bool} {c : Char}
    (h : endsValue headerStyle c = true) : isKeyChar c = false := by
  have hline : isKeyChar '\n' = false ∧ isKeyChar ',' = false ∧ isKeyChar ';' = false := by decide
  cases headerStyle with
  | true =>
    obtain rfl : c = '\n' := by simpa [endsValue] using h
    exact hline.1
  | false =>
    simp only [endsValue, Bool.false_eq_true, if_false, Bool.or_eq_true, decide_eq_true_eq] at h
    rcases h with (h | rfl) | rfl
    · by_contra hkey
      have hsigns : isWhitespace '_' = false ∧ isWhitespace '-' = false := by decide
      simp only [Bool.not_eq_false, isKeyChar, Bool.or_eq_true, decide_eq_true_eq] at hkey
      rcases hkey with (hkey | rfl) | rfl
      · have hbounds := toNat_of_isAlphanum hkey
        simp only [isWhitespace, Bool.or_eq_true, Bool.and_eq_true, decide_eq_true_eq] at h
        omega
      · exact absurd h (by simp [hsigns])
      · exact absurd h (by simp [hsigns])
    · exact hline.2.1
    · exact hline.2.2

theorem keyBefore_concat (seen : List τ) (t : τ) :
    keyBefore ch (seen ++ [t]) = if isKeyChar (ch t) then keyBefore ch seen ++ [t] else [] := by
  simp [keyBefore, List.rtakeWhile_concat]

/-- The scan at the head of the loop: behind the key that stands before the index, behind
a colon that is no separator, or at the end of a value. -/
def Reaches (ch : τ → Char) (s : ScanState) (seen rest output : List τ) : Prop :=
  (s = .key ((keyBefore ch seen).map ch) ∧ keyBefore ch seen <:+ output) ∨
    (∃ run, s = .colon run ∧ keyBefore ch seen = [] ∧ ∀ t ∈ rest.head?, ch t ≠ ' ') ∨
    ∃ headerStyle sensitive begun, s = .value headerStyle sensitive begun ∧
      ∀ t ∈ rest.head?, endsValue headerStyle (ch t) = true

variable {s : ScanState} {seen next output : List τ} {t : τ}

theorem Reaches.outside (key : List τ) (hkey : keyBefore ch seen = key) (hsuffix : key <:+ output)
    (hne : ch t ≠ '=') (hcolon : ch t = ':' → ∀ t' ∈ next.head?, ch t' ≠ ' ') :
    Reaches ch (ScanState.outside (key.map ch) (ch t)) (seen ++ [t]) next (output ++ [t]) := by
  unfold ScanState.outside
  rw [if_neg hne]
  by_cases hc : ch t = ':'
  · have hnot : isKeyChar (ch t) = false := by rw [hc]; decide
    rw [if_pos hc]
    exact Or.inr (Or.inl ⟨_, rfl, by rw [keyBefore_concat, hnot]; rfl, hcolon hc⟩)
  · rw [if_neg hc]
    by_cases hk : isKeyChar (ch t) = true
    · refine Or.inl ⟨?_, ?_⟩
      · rw [if_pos hk, keyBefore_concat, if_pos hk, hkey]
        simp
      · rw [keyBefore_concat, if_pos hk, hkey]
        obtain ⟨front, rfl⟩ := hsuffix
        exact ⟨front, by simp⟩
    · refine Or.inl ⟨?_, ?_⟩
      · rw [if_neg hk, keyBefore_concat, if_neg hk]
        rfl
      · rw [keyBefore_concat, if_neg hk]
        exact List.nil_suffix

theorem Reaches.copy (mark : List τ) (h : Reaches ch s seen (t :: next) output) (hne : ch t ≠ '=')
    (hcolon : ch t = ':' → ∀ t' ∈ next.head?, ch t' ≠ ' ') :
    emit ch mark s t = [t] ∧ Reaches ch (s.step (ch t)) (seen ++ [t]) next (output ++ [t]) := by
  rcases h with ⟨rfl, hsuffix⟩ | ⟨run, rfl, hkey, hspace⟩ |
    ⟨headerStyle, sensitive, begun, rfl, hend⟩
  · exact ⟨rfl, .outside _ rfl hsuffix hne hcolon⟩
  · have hstep : ScanState.step (.colon run) (ch t) = .outside [] (ch t) := if_neg (hspace t rfl)
    refine ⟨rfl, ?_⟩
    rw [hstep]
    exact .outside [] hkey List.nil_suffix hne hcolon
  · have hends := hend t rfl
    have hstep : ScanState.step (.value headerStyle sensitive begun) (ch t) = .key [] :=
      if_pos hends
    have hnot := isKeyChar_of_endsValue hends
    refine ⟨by cases sensitive <;> simp [emit, hends], ?_⟩
    rw [hstep]
    refine Or.inl ⟨?_, ?_⟩
    · rw [keyBefore_concat, hnot]
      rfl
    · rw [keyBefore_concat, hnot]
      exact List.nil_suffix

/-- At a separator the key in front of it decides what follows. -/
theorem Reaches.separator (mark : List τ) (h : Reaches ch s seen (t :: next) output)
    (ht : ch t = '=' ∨ ch t = ':') :
    emit ch mark s t = [t] ∧ s.step (ch t) = .outside ((keyBefore ch seen).map ch) (ch t) ∧
      keyBefore ch seen <:+ output := by
  rcases h with ⟨rfl, hsuffix⟩ | ⟨run, rfl, hkey, hspace⟩ |
    ⟨headerStyle, sensitive, begun, rfl, hend⟩
  · exact ⟨rfl, rfl, hsuffix⟩
  · refine ⟨rfl, ?_, by rw [hkey]; exact List.nil_suffix⟩
    rw [hkey]
    exact if_neg (hspace t rfl)
  · have hends := hend t rfl
    rw [endsValue_separator headerStyle ht] at hends
    cases hends

theorem Reaches.scrubFrom_separator (mark : List τ)
    (h : Reaches ch s seen (t :: next) output) {n : Nat}
    (hn : separatorLen ch (t :: next) = n) (hpos : n ≠ 0) :
    keyBefore ch seen <:+ output ∧
      scrubFrom ch mark s (t :: next) = (t :: next).take n ++
        scrubFrom ch mark (.value (n = 2) (isSensitive ((keyBefore ch seen).map ch)) false)
          ((t :: next).drop n) := by
  rcases separatorLen_cases ch t next with ⟨hzero, _⟩ | ⟨hone, ht⟩ | ⟨htwo, ht, t', next', rfl, ht'⟩
  · omega
  · obtain ⟨hemit, hstep, hsuffix⟩ := h.separator mark (Or.inl ht)
    obtain rfl : 1 = n := hone.symm.trans hn
    refine ⟨hsuffix, ?_⟩
    rw [scrubFrom, hemit, hstep, ht]
    rfl
  · obtain ⟨hemit, hstep, hsuffix⟩ := h.separator mark (Or.inr ht)
    obtain rfl : 2 = n := htwo.symm.trans hn
    refine ⟨hsuffix, ?_⟩
    rw [scrubFrom, hemit, hstep, ht]
    show [t] ++ ([t'] ++ scrubFrom ch mark (ScanState.step (.colon _) (ch t')) next') = _
    rw [ht']
    rfl

/-- The value that the loop takes from `rest`, and what it leaves. -/
theorem valueAt_split (ch : τ → Char) (headerStyle : Bool) (rest : List τ) :
    valueAt ch headerStyle rest ++ rest.drop (valueAt ch headerStyle rest).length = rest ∧
      (∀ t ∈ valueAt ch headerStyle rest, endsValue headerStyle (ch t) = false) ∧
      ∀ t ∈ (rest.drop (valueAt ch headerStyle rest).length).head?,
        endsValue headerStyle (ch t) = true := by
  have htaken : valueAt ch headerStyle rest <+: rest := List.takeWhile_prefix _
  have hsplit := List.prefix_append_drop htaken
  refine ⟨hsplit.symm, ?_, ?_⟩
  · intro t ht
    simpa using List.mem_takeWhile_imp ht
  · intro t ht
    have hdrop := hsplit.symm.trans (List.takeWhile_append_dropWhile
      (p := fun c => !endsValue headerStyle (ch c))).symm
    rw [List.append_cancel_left hdrop] at ht
    have hhead := List.head?_dropWhile_not (fun c => !endsValue headerStyle (ch c)) rest
    rw [ht] at hhead
    simpa using hhead

/-- The value is emitted, or one mark for it, and the scan goes on behind it. -/
theorem scrubFrom_value_split (headerStyle sensitive : Bool) (rest : List τ) :
    scrubFrom ch mark (.value headerStyle sensitive false) rest =
      (if sensitive && !(valueAt ch headerStyle rest).isEmpty then mark
        else valueAt ch headerStyle rest) ++
        scrubFrom ch mark (.value headerStyle sensitive (!(valueAt ch headerStyle rest).isEmpty))
          (rest.drop (valueAt ch headerStyle rest).length) := by
  obtain ⟨hsplit, hinside, _⟩ := valueAt_split ch headerStyle rest
  generalize valueAt ch headerStyle rest = value at hsplit hinside ⊢
  have hmap : ∀ c ∈ value.map ch, endsValue headerStyle c = false := by simpa using hinside
  conv_lhs => rw [← hsplit]
  rw [scrubFrom_append, scrubFrom_value hinside, ScanState.foldl_step_value hmap]
  cases sensitive <;> cases value <;> simp

theorem Reaches.scrubLoop_eq (h : Reaches ch s seen next output) :
    scrubLoop ch mark seen next output = output ++ scrubFrom ch mark s next := by
  induction hn : next.length using Nat.strongRecOn generalizing s seen next output with
  | ind n ih =>
    cases next with
    | nil => rw [scrubLoop, scrubFrom, List.append_nil]
    | cons t next =>
      rw [scrubLoop]
      dsimp only
      by_cases hsep : separatorLen ch (t :: next) = 0
      · rcases separatorLen_cases ch t next with ⟨_, hne, hcolon⟩ | ⟨hone, _⟩ | ⟨htwo, _⟩
        · obtain ⟨hemit, hnext⟩ := h.copy mark hne hcolon
          rw [if_pos hsep, ih next.length (by simp [← hn]) hnext rfl, scrubFrom, hemit,
            List.append_assoc]
        · omega
        · omega
      · obtain ⟨hsuffix, hfrom⟩ := h.scrubFrom_separator mark rfl hsep
        have hcopied := List.suffix_iff_eq_append.mp hsuffix
        have hlen : ((t :: next).drop (separatorLen ch (t :: next))).length < n := by
          rw [← hn, List.length_drop, List.length_cons]
          omega
        rw [if_neg hsep, hfrom, scrubFrom_value_split, hcopied]
        generalize (t :: next).drop (separatorLen ch (t :: next)) = rest at hlen ⊢
        generalize separatorLen ch (t :: next) = separator
        have hend := (valueAt_split ch (separator = 2) rest).2.2
        have hbehind : ∀ seen output : List τ, ∀ sensitive begun,
            scrubLoop ch mark seen (rest.drop (valueAt ch (separator = 2) rest).length) output =
              output ++ scrubFrom ch mark (.value (separator = 2) sensitive begun)
                (rest.drop (valueAt ch (separator = 2) rest).length) := by
          intro seen output sensitive begun
          refine ih _ ?_ (Or.inr (Or.inr ⟨_, _, _, rfl, hend⟩)) rfl
          rw [List.length_drop]
          omega
        rw [hbehind _ _ (isSensitive ((keyBefore ch seen).map ch))
          (!(valueAt ch (separator = 2) rest).isEmpty)]
        split <;> simp only [List.append_assoc]

theorem scrubSensitivePairs_eq (text : List τ) :
    scrubSensitivePairs ch mark text = scrubFrom ch mark (.key []) text :=
  Reaches.scrubLoop_eq (Or.inl ⟨rfl, List.nil_suffix⟩)

end

end RemoteDesktopTool
