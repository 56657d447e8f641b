import RemoteDesktopTool.KnownHostsAccept

namespace RemoteDesktopTool

open KnownHostEntry

namespace KnownHostEntry

/-- An entry without the number of its line. -/
def unnumbered (entry : KnownHostEntry) : KnownHostEntry := { entry with line := 0 }

end KnownHostEntry

namespace KnownHosts

variable {x : Externals} {db other : KnownHosts} {host : Text} {port : UInt16} {keyType : Text}
  {key : List UInt8} {comment : Text}

/-- The same entries in the same order, up to the line numbers. -/
def Alike (db other : KnownHosts) : Prop :=
  db.entries.map unnumbered = other.entries.map unnumbered

theorem Alike.check (h : Alike db other) :
    db.check x host port keyType key = other.check x host port keyType key := by
  refine check_congr ?_
  have hbare : ∀ entries : List KnownHostEntry,
      entries.map bare = (entries.map unnumbered).map bare := fun entries => by
    rw [List.map_map]
    rfl
  rw [hbare db.entries, hbare other.entries, h]

/-- A filter that does not read the line numbers leaves like entries behind. -/
theorem map_unnumbered_filter {keep : KnownHostEntry → Bool}
    (hkeep : ∀ entry, keep entry.unnumbered = keep entry) (entries : List KnownHostEntry) :
    (entries.filter keep).map unnumbered = (entries.map unnumbered).filter keep := by
  rw [List.filter_map]
  refine congrArg (List.map unnumbered) (List.filter_congr ?_)
  intro entry _
  exact (hkeep entry).symm

theorem Alike.accept (h : Alike db other) :
    Alike (db.accept x host port keyType key comment)
      (other.accept x host port keyType key comment) := by
  unfold Alike
  rw [entries_accept, entries_accept, List.map_append, List.map_append, kept, kept,
    map_unnumbered_filter (fun _ => rfl), map_unnumbered_filter (fun _ => rfl), h]

theorem Alike.length (h : Alike db other) : db.entries.length = other.entries.length := by
  have hlength := congrArg List.length h
  rwa [List.length_map, List.length_map] at hlength

theorem Alike.forget (h : Alike db other) :
    (db.forget x host port).1 = (other.forget x host port).1 ∧
      Alike (db.forget x host port).2 (other.forget x host port).2 := by
  have hkept : Alike (db.forget x host port).2 (other.forget x host port).2 := by
    show List.map unnumbered (List.filter _ _) = List.map unnumbered (List.filter _ _)
    rw [map_unnumbered_filter (fun _ => rfl), map_unnumbered_filter (fun _ => rfl), h]
  refine ⟨?_, hkept⟩
  show db.entries.length - (db.forget x host port).2.entries.length =
    other.entries.length - (other.forget x host port).2.entries.length
  rw [h.length, hkept.length]

theorem tidy_of_mem_parse {text : Text} {entry : KnownHostEntry}
    (h : entry ∈ (parse x text).entries) : tidy entry.comment = entry.comment := by
  obtain ⟨⟨line, index⟩, _, hparse⟩ := List.mem_filterMap.mp h
  dsimp only at hparse
  split at hparse
  next parsed hok =>
    rw [hparse] at hok
    exact (printable_of_parse hok).2
  next => cases hparse

theorem alike_rewritten (hx : x.LawfulBase64) (text : Text) :
    Alike (parse x ((parse x text).toStringLossy x)) (parse x text) := by
  unfold Alike
  rw [entries_parse_toStringLossy hx (printable_parse x text), List.map_map]
  have hzip : (parse x text).entries.zipIdx.map (unnumbered ∘ Prod.fst) =
      (parse x text).entries.map unnumbered := by
    rw [← List.map_map, List.zipIdx_map_fst]
  rw [← hzip]
  refine List.map_congr_left ?_
  rintro ⟨entry, index⟩ hmem
  have htidy := tidy_of_mem_parse (List.fst_mem_of_mem_zipIdx hmem)
  show ({ entry with comment := tidy entry.comment, line := 0 } : KnownHostEntry) =
    { entry with line := 0 }
  rw [htidy]

/-- Whatever was in a file, writing it back changes nothing but the line numbers. -/
theorem rewriting_keeps_meaning (hx : x.LawfulBase64) (text : Text) :
    let db := parse x text
    let again := parse x (db.toStringLossy x)
    Alike again db ∧
    (∀ host port keyType key,
      again.check x host port keyType key = db.check x host port keyType key) ∧
    (∀ host port keyType key comment,
      Alike (again.accept x host port keyType key comment)
        (db.accept x host port keyType key comment)) ∧
    ∀ host port, (again.forget x host port).1 = (db.forget x host port).1 ∧
      Alike (again.forget x host port).2 (db.forget x host port).2 := by
  have halike := alike_rewritten hx text
  exact ⟨halike, fun _ _ _ _ => halike.check, fun _ _ _ _ _ => halike.accept,
    fun _ _ => halike.forget⟩

theorem rewriting_keeps_meaning_busyHosts :
    let db := parse base64Externals busyHosts
    let again := parse base64Externals (db.toStringLossy base64Externals)
    Alike again db ∧
    (∀ host port keyType key, again.check base64Externals host port keyType key =
      db.check base64Externals host port keyType key) ∧
    (∀ host port keyType key comment,
      Alike (again.accept base64Externals host port keyType key comment)
        (db.accept base64Externals host port keyType key comment)) ∧
    ∀ host port,
      (again.forget base64Externals host port).1 = (db.forget base64Externals host port).1 ∧
      Alike (again.forget base64Externals host port).2 (db.forget base64Externals host port).2 :=
  rewriting_keeps_meaning (x := base64Externals) lawful_base64Externals busyHosts

end KnownHosts

end RemoteDesktopTool
