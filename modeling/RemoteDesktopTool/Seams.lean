import Mathlib.Data.List.Chain

namespace Seams

universe u

variable {α : Type u}

/-- What may stand beside what in a list, at its start and at its end. Two lists may be put
together behind an element that closes, and taken apart there. -/
structure Seam (α : Type u) where
  fits : α → α → Prop
  opens : α → Prop
  closes : α → Prop
  join {x y : α} : closes x → opens y → fits x y
  part {x y : α} : closes x → fits x y → opens y

/-- Every `lead` is directly followed by a `trail`. -/
def followed (lead trail : α → Prop) : Seam α where
  fits x y := lead x → trail y
  opens _ := True
  closes x := ¬lead x
  join hx _ hlead := absurd hlead hx
  part _ _ := trivial

/-- Every `lead` is directly followed by a `trail`, and every `trail` directly preceded by a
`lead`. -/
def paired (lead trail : α → Prop) : Seam α where
  fits x y := lead x ↔ trail y
  opens y := ¬trail y
  closes x := ¬lead x
  join hx hy := iff_of_false hx hy
  part hx h := fun hy => hx (h.mpr hy)

/-- A list in which nothing is torn. -/
structure Seam.Sealed (s : Seam α) (l : List α) : Prop where
  chain : l.IsChain s.fits
  head : ∀ x ∈ l.head?, s.opens x
  last : ∀ x ∈ l.getLast?, s.closes x

/-- The list may be taken apart in front of index `i`. -/
def Seam.FreeAt (s : Seam α) (l : List α) (i : Nat) : Prop :=
  ∀ x, 0 < i → l[i - 1]? = some x → s.closes x

variable {s : Seam α} {l l' : List α} {i : Nat}

namespace Seam

theorem sealed_nil : s.Sealed [] :=
  ⟨.nil, (fun _ h => by cases h), fun _ h => by cases h⟩

theorem sealed_singleton {x : α} (hopens : s.opens x) (hcloses : s.closes x) : s.Sealed [x] := by
  refine ⟨.singleton x, fun y hy => ?_, fun y hy => ?_⟩
  · cases Option.some.inj hy
    exact hopens
  · cases Option.some.inj hy
    exact hcloses

theorem Sealed.append (h : s.Sealed l) (h' : s.Sealed l') : s.Sealed (l ++ l') := by
  refine ⟨h.chain.append h'.chain fun x hx y hy => s.join (h.last x hx) (h'.head y hy), ?_, ?_⟩
  · intro x hx
    rw [List.head?_append] at hx
    cases hl : l.head? with
    | none =>
      rw [hl] at hx
      exact h'.head x hx
    | some y =>
      rw [hl] at hx
      exact h.head x (hl.trans hx)
  · intro x hx
    rw [List.getLast?_append] at hx
    cases hl : l'.getLast? with
    | none =>
      rw [hl] at hx
      exact h.last x hx
    | some y =>
      rw [hl] at hx
      exact h'.last x (hl.trans hx)

theorem sealed_of_forall (h : ∀ x ∈ l, s.opens x ∧ s.closes x) : s.Sealed l := by
  induction l with
  | nil => exact sealed_nil
  | cons x l ih =>
    obtain ⟨hopens, hcloses⟩ := h x List.mem_cons_self
    have hrest := ih fun y hy => h y (List.mem_cons_of_mem x hy)
    exact (sealed_singleton hopens hcloses).append hrest

theorem Sealed.of_append (h : s.Sealed (l ++ l')) (hcut : ∀ x ∈ l.getLast?, s.closes x) :
    s.Sealed l ∧ s.Sealed l' := by
  obtain ⟨hleft, hright, hseam⟩ := List.isChain_append.mp h.chain
  refine ⟨⟨hleft, fun x hx => h.head x ?_, hcut⟩, hright, fun y hy => ?_, fun x hx => h.last x ?_⟩
  · rw [List.head?_append, hx]
    rfl
  · cases hl : l.getLast? with
    | none =>
      rw [List.getLast?_eq_none_iff.mp hl] at h
      exact h.head y hy
    | some x => exact s.part (hcut x hl) (hseam x hl y hy)
  · rw [List.getLast?_append, hx]
    rfl

theorem Sealed.freeAt_length (h : s.Sealed l) : s.FreeAt l l.length := by
  intro x _ hx
  rw [← List.getLast?_eq_getElem?] at hx
  exact h.last x hx

theorem Sealed.getLast?_take (h : s.Sealed l) (hfree : s.FreeAt l i) :
    ∀ x ∈ (l.take i).getLast?, s.closes x := by
  intro x hx
  rw [List.getLast?_eq_getElem?, List.length_take] at hx
  rcases Nat.lt_or_ge (min i l.length) 1 with hnone | hsome
  · have hempty : (l.take i) = [] := List.length_eq_zero_iff.mp (by rw [List.length_take]; omega)
    rw [hempty] at hx
    cases hx
  · rw [List.getElem?_take, if_pos (by omega)] at hx
    rcases Nat.le_total i l.length with hle | hle
    · rw [Nat.min_eq_left hle] at hx
      exact hfree x (by omega) hx
    · rw [Nat.min_eq_right hle] at hx
      exact h.freeAt_length x (by omega) hx

theorem Sealed.cut (h : s.Sealed l) (hfree : s.FreeAt l i) :
    s.Sealed (l.take i) ∧ s.Sealed (l.drop i) := by
  refine Sealed.of_append ?_ (h.getLast?_take hfree)
  rw [List.take_append_drop]
  exact h

theorem FreeAt.take {limit : Nat} (h : s.FreeAt l i) : s.FreeAt (l.take limit) i := by
  intro x hi hx
  rw [List.getElem?_take] at hx
  split at hx
  next => exact h x hi hx
  next => cases hx

end Seam

/-- A splice of a list: it keeps what stands in front of `start`, and what stands from `resume` up
to `limit`. -/
structure Splice where
  start : Nat
  resume : Nat
  limit : Nat
deriving DecidableEq, Repr

/-- The spliced list: `fill` between the parts that are kept, and `tail` behind them. -/
def Splice.apply (e : Splice) (fill tail l : List α) : List α :=
  l.take e.start ++ fill ++ (l.take e.limit).drop e.resume ++ tail

theorem Splice.mem_apply {e : Splice} {fill tail : List α} {x : α} (h : x ∈ e.apply fill tail l) :
    x ∈ l ∨ x ∈ fill ∨ x ∈ tail := by
  rcases List.mem_append.mp h with h | h
  · rcases List.mem_append.mp h with h | h
    · rcases List.mem_append.mp h with h | h
      · exact .inl (List.mem_of_mem_take h)
      · exact .inr (.inl h)
    · exact .inl (List.mem_of_mem_take (List.mem_of_mem_drop h))
  · exact .inr (.inr h)

/-- Where an element of the edited list was before. -/
theorem Splice.getElem?_apply {e : Splice} {fill tail : List α} {k : Nat} {x : α}
    (hstart : e.start ≤ l.length) (h : (e.apply fill tail l)[k]? = some x) :
    (k < e.start ∧ l[k]? = some x) ∨
    (∃ i, k = e.start + i ∧ fill[i]? = some x) ∨
    (∃ i, e.resume + i < e.limit ∧ k = e.start + fill.length + i ∧ l[e.resume + i]? = some x) ∨
    x ∈ tail := by
  have hlen : (l.take e.start).length = e.start := List.length_take_of_le hstart
  unfold Splice.apply at h
  rw [List.append_assoc, List.append_assoc, List.getElem?_append] at h
  split at h
  next hlt =>
    rw [hlen] at hlt
    rw [List.getElem?_take, if_pos hlt] at h
    exact .inl ⟨hlt, h⟩
  next hge =>
    rw [hlen] at hge h
    rw [List.getElem?_append] at h
    split at h
    next hfill => exact .inr (.inl ⟨k - e.start, by omega, h⟩)
    next hfill =>
      rw [List.getElem?_append] at h
      split at h
      next hkept =>
        rw [List.getElem?_drop, List.getElem?_take] at h
        split at h
        next hlt => exact .inr (.inr (.inl ⟨k - e.start - fill.length, hlt, by omega, h⟩))
        next => cases h
      next => exact .inr (.inr (.inr (List.mem_of_getElem? h)))

/-- What is written over the filling takes its place. -/
theorem Splice.apply_overwrite (e : Splice) {fill fill' : List α} (tail : List α)
    (hstart : e.start ≤ l.length) (hfill : fill'.length = fill.length) :
    (e.apply fill tail l).take e.start ++ fill' ++
        (e.apply fill tail l).drop (e.start + fill'.length) = e.apply fill' tail l := by
  have hlen : (l.take e.start).length = e.start := List.length_take_of_le hstart
  have hboth : (l.take e.start ++ fill).length = e.start + fill'.length := by
    rw [List.length_append, hlen, hfill]
  have hsplit : e.apply fill tail l =
      (l.take e.start ++ fill) ++ ((l.take e.limit).drop e.resume ++ tail) :=
    List.append_assoc _ _ _
  have hdrop : (e.apply fill tail l).drop (e.start + fill'.length) =
      (l.take e.limit).drop e.resume ++ tail := by
    rw [hsplit, List.drop_left' hboth]
  have htake : (e.apply fill tail l).take e.start = l.take e.start := by
    rw [hsplit, List.append_assoc, List.take_left' hlen]
  rw [hdrop, htake, ← List.append_assoc]
  rfl

/-- Nothing is torn by the edit. -/
def Splice.Spares (e : Splice) (s : Seam α) (l : List α) : Prop :=
  s.FreeAt l e.start ∧ s.FreeAt l e.resume ∧ s.FreeAt l e.limit

theorem Seam.Sealed.splice {e : Splice} {fill tail : List α} (h : s.Sealed l)
    (hspares : e.Spares s l) (hfill : s.Sealed fill) (htail : s.Sealed tail) :
    s.Sealed (e.apply fill tail l) := by
  obtain ⟨hstart, hresume, hlimit⟩ := hspares
  have hkept := ((h.cut hlimit).1.cut hresume.take).2
  exact (((h.cut hstart).1.append hfill).append hkept).append htail

section Torn

variable {lead trail : α → Prop} {k : Nat}

/-- A list with one pair, at `k`. -/
structure OnePair (lead trail : α → Prop) (k : Nat) (l : List α) : Prop where
  inside : k + 1 < l.length
  lead_iff : ∀ i x, l[i]? = some x → (lead x ↔ i = k)
  trail_iff : ∀ i x, l[i]? = some x → (trail x ↔ i = k + 1)

theorem OnePair.freeAt_iff (h : OnePair lead trail k l) :
    (paired lead trail).FreeAt l i ↔ i ≠ k + 1 := by
  constructor
  · rintro hfree rfl
    obtain ⟨x, hk⟩ : ∃ x, l[k]? = some x :=
      ⟨_, List.getElem?_eq_getElem (Nat.lt_of_succ_lt h.inside)⟩
    exact hfree _ (Nat.succ_pos k) hk ((h.lead_iff k _ hk).mpr rfl)
  · intro hne x hi hx hlead
    have heq := (h.lead_iff _ x hx).mp hlead
    omega

theorem OnePair.sealed (h : OnePair lead trail k l) : (paired lead trail).Sealed l := by
  refine ⟨List.isChain_iff_getElem.mpr fun i hi => ?_, fun y hy htrail => ?_, fun x hx hlead => ?_⟩
  · have hx := h.lead_iff i _ (List.getElem?_eq_getElem (by omega))
    have hy := h.trail_iff (i + 1) _ (List.getElem?_eq_getElem hi)
    exact hx.trans (Iff.trans (by omega) hy.symm)
  · rw [Option.mem_def, List.head?_eq_getElem?] at hy
    have heq := (h.trail_iff 0 y hy).mp htrail
    omega
  · rw [Option.mem_def, List.getLast?_eq_getElem?] at hx
    have heq := (h.lead_iff _ x hx).mp hlead
    have hin := h.inside
    omega

/-- A `lead` that stands at the end of a part finds its `trail` at the start of the next one. -/
theorem exists_head?_of_lead (h : (paired lead trail).Sealed (l ++ l')) {x : α}
    (hx : x ∈ l.getLast?) (hlead : lead x) : ∃ y ∈ l'.head?, trail y := by
  cases hy : l'.head? with
  | none =>
    rw [List.head?_eq_none_iff.mp hy, List.append_nil] at h
    exact absurd hlead (h.last x hx)
  | some y =>
    have hseam := (List.isChain_append.mp h.chain).2.2 x hx y hy
    exact ⟨y, rfl, hseam.mp hlead⟩

theorem exists_getLast?_of_trail (h : (paired lead trail).Sealed (l ++ l')) {y : α}
    (hy : y ∈ l'.head?) (htrail : trail y) : ∃ x ∈ l.getLast?, lead x := by
  cases hx : l.getLast? with
  | none =>
    rw [List.getLast?_eq_none_iff.mp hx, List.nil_append] at h
    exact absurd htrail (h.head y hy)
  | some x =>
    have hseam := (List.isChain_append.mp h.chain).2.2 x hx y hy
    exact ⟨x, rfl, hseam.mpr htrail⟩

/-- The edit changes the list at `start`, and it either goes on where it started or leaves the end
of the list as it is. -/
structure Splice.Works (e : Splice) (fill l : List α) : Prop where
  start_le : e.start ≤ e.resume
  changes : fill ≠ [] ∨ e.start < e.resume
  goes_on : (e.resume = e.start ∧ e.start ≤ e.limit) ∨ e.limit = l.length

variable {e : Splice} {fill tail : List α}

theorem OnePair.start_ne (h : OnePair lead trail k l) (hfill : ∀ x ∈ fill, ¬trail x)
    (htail : ∀ x ∈ tail, ¬trail x) (hworks : e.Works fill l)
    (hsealed : (paired lead trail).Sealed (e.apply fill tail l)) : e.start ≠ k + 1 := by
  intro hstart
  have hin := h.inside
  obtain ⟨x, hx⟩ : ∃ x, l[k]? = some x := ⟨l[k], List.getElem?_eq_getElem _⟩
  have hlast : x ∈ (l.take e.start).getLast? := by
    rw [Option.mem_def, List.getLast?_eq_getElem?, List.length_take, List.getElem?_take,
      if_pos (by omega), hstart, Nat.min_eq_left hin.le]
    exact hx
  have hapart : (paired lead trail).Sealed
      (l.take e.start ++ (fill ++ ((l.take e.limit).drop e.resume ++ tail))) := by
    simpa only [Splice.apply, List.append_assoc] using hsealed
  obtain ⟨y, hy, hytrail⟩ := exists_head?_of_lead hapart hlast ((h.lead_iff k x hx).mpr rfl)
  cases fill with
  | cons z fill =>
    cases Option.some.inj hy
    exact hfill _ List.mem_cons_self hytrail
  | nil =>
    have hlt : e.start < e.resume := hworks.changes.resolve_left fun hne => hne rfl
    rw [List.nil_append, List.head?_append] at hy
    cases hkept : ((l.take e.limit).drop e.resume).head? with
    | none =>
      rw [hkept] at hy
      exact htail y (List.mem_of_head? hy) hytrail
    | some z =>
      rw [hkept] at hy
      cases Option.some.inj hy
      rw [List.head?_drop, List.getElem?_take] at hkept
      split at hkept
      next =>
        have heq := (h.trail_iff _ _ hkept).mp hytrail
        omega
      next => cases hkept

theorem OnePair.resume_ne (h : OnePair lead trail k l) (hfill : ∀ x ∈ fill, ¬lead x)
    (hworks : e.Works fill l) (hstart : e.start ≠ k + 1)
    (hsealed : (paired lead trail).Sealed (e.apply fill tail l)) : e.resume ≠ k + 1 := by
  intro hresume
  have hin := h.inside
  have hle := hworks.start_le
  have hlimit : e.limit = l.length := hworks.goes_on.resolve_left fun hboth => by omega
  obtain ⟨y, hy⟩ : ∃ y, l[k + 1]? = some y := ⟨l[k + 1], List.getElem?_eq_getElem _⟩
  have hhead : y ∈ ((l.take e.limit).drop e.resume ++ tail).head? := by
    rw [Option.mem_def, List.head?_append, hlimit, List.take_length, List.head?_drop, hresume, hy]
    rfl
  have hapart : (paired lead trail).Sealed
      ((l.take e.start ++ fill) ++ ((l.take e.limit).drop e.resume ++ tail)) := by
    simpa only [Splice.apply, List.append_assoc] using hsealed
  obtain ⟨x, hx, hxlead⟩ :=
    exists_getLast?_of_trail hapart hhead ((h.trail_iff _ y hy).mpr rfl)
  rcases List.mem_append.mp (List.mem_of_getLast? hx) with hbefore | hnew
  · obtain ⟨i, hi, hxi⟩ := List.mem_iff_getElem.mp hbefore
    rw [List.length_take] at hi
    rw [List.getElem_take] at hxi
    have heq := (h.lead_iff i x (List.getElem?_eq_some_iff.mpr ⟨by omega, hxi⟩)).mp hxlead
    omega
  · exact hfill x hnew hxlead

theorem OnePair.limit_ne (h : OnePair lead trail k l) (htail : ∀ x ∈ tail, ¬trail x)
    (hworks : e.Works fill l) (hstart : e.start ≠ k + 1)
    (hsealed : (paired lead trail).Sealed (e.apply fill tail l)) : e.limit ≠ k + 1 := by
  intro hlimit
  have hin := h.inside
  obtain ⟨hresume, hle⟩ := hworks.goes_on.resolve_right fun hlen => by omega
  obtain ⟨x, hx⟩ : ∃ x, l[k]? = some x := ⟨l[k], List.getElem?_eq_getElem _⟩
  have hlast : x ∈ (l.take e.start ++ fill ++ (l.take e.limit).drop e.resume).getLast? := by
    have hkept : ((l.take e.limit).drop e.resume).getLast? = some x := by
      rw [List.getLast?_drop, if_neg (by rw [List.length_take]; omega),
        List.getLast?_eq_getElem?, List.length_take, List.getElem?_take, if_pos (by omega), hlimit,
        Nat.min_eq_left hin.le]
      exact hx
    rw [Option.mem_def, List.getLast?_append, hkept]
    rfl
  obtain ⟨y, hy, hytrail⟩ := exists_head?_of_lead hsealed hlast ((h.lead_iff k x hx).mpr rfl)
  exact htail y (List.mem_of_head? hy) hytrail

/-- An edit that leaves the pair whole spares it. -/
theorem OnePair.spares (h : OnePair lead trail k l) (hfill : ∀ x ∈ fill, ¬lead x ∧ ¬trail x)
    (htail : ∀ x ∈ tail, ¬trail x) (hworks : e.Works fill l)
    (hsealed : (paired lead trail).Sealed (e.apply fill tail l)) :
    e.Spares (paired lead trail) l := by
  have hstart := h.start_ne (fun x hx => (hfill x hx).2) htail hworks hsealed
  have hresume := h.resume_ne (fun x hx => (hfill x hx).1) hworks hstart hsealed
  have hlimit := h.limit_ne htail hworks hstart hsealed
  exact ⟨h.freeAt_iff.mpr hstart, h.freeAt_iff.mpr hresume, h.freeAt_iff.mpr hlimit⟩

end Torn

end Seams
