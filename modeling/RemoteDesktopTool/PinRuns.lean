import Mathlib.Logic.Equiv.List
import RemoteDesktopTool.FirstUse
import RemoteDesktopTool.PinStore

namespace RemoteDesktopTool

open FileSteps

namespace PinnedCertificates

variable {codec : PinCodec} {file : PinFile} {files : Files Text UInt8}
  {entries : AList fun _ : Text => Text}

theorem load_missing (codec : PinCodec) (hfile : files file.path = none) :
    load codec file files = .ok empty := by
  rw [load, readToString, hfile]
  exact if_pos rfl

theorem load_text {text : Text} (hfile : files file.path = some text.asBytes)
    (hdecode : codec.decode text = .ok entries) :
    load codec file files = .ok ⟨entries, some file⟩ := by
  have hread : readToString file.path files = .ok text := by
    rw [readToString, hfile]
    dsimp only
    rw [strFromUtf8_asBytes]
  rw [load, hread]
  dsimp only
  rw [hdecode]

/-- What is saved to the file is what the next connection finds there. -/
theorem load_saveFile (hcodec : codec.Undoes) (file : PinFile)
    (entries : AList fun _ : Text => Text) (files : Files Text UInt8) : ∃ entries',
      load codec file ((saveFile codec ⟨entries, some file⟩ files).2) =
        .ok ⟨entries', some file⟩ ∧
      ∀ host, entries'.lookup host = entries.lookup host := by
  obtain ⟨entries', hdecode, hsame⟩ := hcodec entries
  have hattached : (⟨entries, some file⟩ : PinnedCertificates).path = some file := rfl
  exact ⟨entries', load_text (saveFile_attached hattached files) hdecode, hsame⟩

end PinnedCertificates

namespace PinConnection

open FirstUse

variable {x : Externals} {codec : PinCodec} {file : PinFile} {files : Files Text UInt8}
  {entries : AList fun _ : Text => Text} {conn : PinConnection}

/-- The file is there and holds pins. -/
def Valid (codec : PinCodec) (file : PinFile) (files : Files Text UInt8) : Prop :=
  ∃ entries, PinnedCertificates.load codec file files = .ok ⟨entries, some file⟩

theorem recorded_of_load {pins : PinnedCertificates}
    (hload : PinnedCertificates.load codec file files = .ok pins) (name : Text) :
    recorded codec file files name = pins.entries.lookup name := by
  rw [recorded, hload]

theorem connect_known (hload : PinnedCertificates.load codec file files = .ok ⟨entries, some file⟩)
    {expected : Text} (hknown : entries.lookup (x.strToLowercase conn.host) = some expected) :
    (conn.Accepted x codec file files ↔ sha256Fingerprint x conn.der = expected) ∧
      (conn.connect x codec file files).2 = files := by
  have hget : (conn.verifier ⟨entries, some file⟩).pins.get x
      (conn.verifier ⟨entries, some file⟩).host = some expected := hknown
  have hpolicy : (conn.verifier ⟨entries, some file⟩).policy = .trustOnFirstUse := rfl
  unfold Accepted
  by_cases hsame : expected = sha256Fingerprint x conn.der
  · have hconnect : conn.connect x codec file files =
        (.ok (.pinned (sha256Fingerprint x conn.der)), files) := by
      simp only [connect, hload, CertificateVerifier.verify, Bool.false_eq_true, if_false, hpolicy,
        hget, if_pos hsame]
    rw [hconnect]
    exact ⟨⟨fun _ => hsame.symm, fun _ => ⟨_, rfl⟩⟩, rfl⟩
  · have hconnect : ∃ error, conn.connect x codec file files = (.error error, files) := by
      simp only [connect, hload, CertificateVerifier.verify, Bool.false_eq_true, if_false, hpolicy,
        hget, if_neg hsame]
      exact ⟨_, rfl⟩
    obtain ⟨error, hconnect⟩ := hconnect
    rw [hconnect]
    refine ⟨⟨?_, fun heq => absurd heq.symm hsame⟩, rfl⟩
    rintro ⟨decision, hdecision⟩
    cases hdecision

theorem connect_new (hload : PinnedCertificates.load codec file files = .ok ⟨entries, some file⟩)
    (hnew : entries.lookup (x.strToLowercase conn.host) = none) :
    conn.connect x codec file files =
      (.ok (.recordedOnFirstUse (sha256Fingerprint x conn.der)),
        (PinnedCertificates.saveFile codec
          ⟨entries.insert (x.strToLowercase conn.host) (sha256Fingerprint x conn.der), some file⟩
          files).2) := by
  have hget : (conn.verifier ⟨entries, some file⟩).pins.get x
      (conn.verifier ⟨entries, some file⟩).host = none := hnew
  have hpolicy : (conn.verifier ⟨entries, some file⟩).policy = .trustOnFirstUse := rfl
  have hsave : (PinnedCertificates.pin x ⟨entries, some file⟩ conn.host
      (sha256Fingerprint x conn.der)).save .none = .ok () := by
    rw [← PinnedCertificates.saveFile_result codec _ files]
    rfl
  simp only [connect, hload, CertificateVerifier.verify, Bool.false_eq_true, if_false, hpolicy,
    hget]
  have hpins : (conn.verifier ⟨entries, some file⟩).pins.pin x
      (conn.verifier ⟨entries, some file⟩).host (sha256Fingerprint x conn.der) =
        PinnedCertificates.pin x ⟨entries, some file⟩ conn.host (sha256Fingerprint x conn.der) :=
    rfl
  simp only [hpins, hsave, Except.map]
  rfl

/-- Without a file the pins are not attached to one, and no certificate is accepted. -/
theorem connect_missing (x : Externals) (codec : PinCodec) (conn : PinConnection)
    (hfile : files file.path = none) :
    ∃ error, conn.connect x codec file files = (.error error, files) := by
  have hload := PinnedCertificates.load_missing codec hfile
  refine ⟨.new .config "the pin store has no file".toList, ?_⟩
  rw [connect, hload]
  rfl

/-- A connection to a valid file does what the first use of names and values does. -/
theorem connect_records (hcodec : codec.Undoes) (hvalid : Valid codec file files)
    (conn : PinConnection) :
    Valid codec file (conn.connect x codec file files).2 ∧
      recorded codec file (conn.connect x codec file files).2 =
        record (recorded codec file files) (conn.use x) ∧
      (conn.Accepted x codec file files ↔ Admits (recorded codec file files) (conn.use x)) := by
  obtain ⟨entries, hload⟩ := hvalid
  have hrecorded := recorded_of_load hload
  cases hname : entries.lookup (x.strToLowercase conn.host) with
  | some expected =>
    obtain ⟨haccepted, hfiles⟩ := connect_known hload hname
    have hknown : recorded codec file files (conn.use x).1 = some expected :=
      (hrecorded _).trans hname
    rw [hfiles, record_of_known hknown, admits_iff hknown]
    exact ⟨⟨entries, hload⟩, rfl, haccepted⟩
  | none =>
    have hnew : recorded codec file files (conn.use x).1 = none := (hrecorded _).trans hname
    have hconnect := connect_new hload hname
    obtain ⟨entries', hload', hsame⟩ := PinnedCertificates.load_saveFile hcodec file
      (entries.insert (x.strToLowercase conn.host) (sha256Fingerprint x conn.der)) files
    refine ⟨?_, ?_, fun _ => admits_of_new hnew, fun _ => ?_⟩
    · rw [hconnect]
      exact ⟨entries', hload'⟩
    · funext name
      rw [hconnect, recorded_of_load hload' name, hsame, record, hnew]
      by_cases hhost : name = (conn.use x).1
      · rw [hhost, Function.update_self]
        exact AList.lookup_insert _
      · rw [Function.update_of_ne hhost, hrecorded]
        exact AList.lookup_insert_ne hhost
    · exact ⟨_, congrArg Prod.fst hconnect⟩

theorem filesAfter_append_cons (pre rest : List PinConnection) (conn : PinConnection) :
    filesAfter x codec file files (pre ++ conn :: rest) =
      filesAfter x codec file (conn.connect x codec file (filesAfter x codec file files pre)).2
        rest :=
  Runs.after_append_cons files pre rest conn

/-- The pins behind a run are those of the first uses in it. -/
theorem filesAfter_records (hcodec : codec.Undoes) (hvalid : Valid codec file files)
    (conns : List PinConnection) :
    Valid codec file (filesAfter x codec file files conns) ∧
      recorded codec file (filesAfter x codec file files conns) =
        Runs.after record (recorded codec file files) (conns.map (use x)) := by
  induction conns generalizing files with
  | nil => exact ⟨hvalid, rfl⟩
  | cons conn conns ih =>
    obtain ⟨hvalid', hrecords, _⟩ := connect_records (x := x) hcodec hvalid conn
    obtain ⟨hlast, hrun⟩ := ih hvalid'
    refine ⟨hlast, ?_⟩
    rw [List.map_cons, Runs.after_cons, ← hrecords]
    exact hrun

/-- What trust on first use promises for a run of connections: the first connection to a host
without a pin is accepted and recorded, and from then on, as for the hosts with a pin in the file,
exactly the recorded fingerprint is accepted. -/
structure TrustsFirstUse (x : Externals) (codec : PinCodec) (file : PinFile)
    (files : Files Text UInt8) (conns : List PinConnection) : Prop where
  first : ∀ pre conn rest, conns = pre ++ conn :: rest →
    recorded codec file (filesAfter x codec file files pre) (x.strToLowercase conn.host) = none →
      (conn.connect x codec file (filesAfter x codec file files pre)).1 =
          .ok (.recordedOnFirstUse (sha256Fingerprint x conn.der)) ∧
        recorded codec file (filesAfter x codec file files (pre ++ [conn]))
          (x.strToLowercase conn.host) = some (sha256Fingerprint x conn.der)
  later : ∀ pre conn mid later rest, conns = pre ++ conn :: (mid ++ later :: rest) →
    recorded codec file (filesAfter x codec file files pre) (x.strToLowercase conn.host) = none →
      x.strToLowercase later.host = x.strToLowercase conn.host →
        (later.Accepted x codec file (filesAfter x codec file files (pre ++ conn :: mid)) ↔
          sha256Fingerprint x later.der = sha256Fingerprint x conn.der)
  known : ∀ name expected, recorded codec file files name = some expected →
    ∀ pre conn rest, conns = pre ++ conn :: rest → x.strToLowercase conn.host = name →
      (conn.Accepted x codec file (filesAfter x codec file files pre) ↔
        sha256Fingerprint x conn.der = expected)

theorem trustsFirstUse_of_valid (hcodec : codec.Undoes) (hvalid : Valid codec file files)
    (conns : List PinConnection) : TrustsFirstUse x codec file files conns := by
  have hruns := fun pre => filesAfter_records (x := x) hcodec hvalid pre
  refine ⟨fun pre conn rest _ hnew => ?_, fun pre conn mid later rest _ hnew hhost => ?_,
    fun name expected hknown pre conn rest _ hhost => ?_⟩
  · obtain ⟨⟨entries, hload⟩, _⟩ := hruns pre
    have hname := (recorded_of_load hload (x.strToLowercase conn.host)).symm.trans hnew
    obtain ⟨_, hrecords, _⟩ := connect_records (x := x) hcodec (hruns pre).1 conn
    refine ⟨congrArg Prod.fst (connect_new hload hname), ?_⟩
    rw [filesAfter_append_cons]
    exact (congrFun hrecords _).trans (record_new hnew)
  · have hthere := connect_records (x := x) hcodec (hruns (pre ++ conn :: mid)).1 later
    rw [hthere.2.2, (hruns (pre ++ conn :: mid)).2, List.map_append, List.map_cons,
      Runs.after_append_cons, ← (hruns pre).2]
    exact admits_after_iff hnew hhost (mid.map (use x))
  · have hthere := connect_records (x := x) hcodec (hruns pre).1 conn
    have hkept := after_keeps hknown (pre.map (use x))
    rw [hthere.2.2, (hruns pre).2]
    rw [← hhost] at hkept
    exact admits_iff hkept

/-- Trust on first use works across connections exactly if the pin file is there when the first of
them is made. -/
theorem trustsFirstUse_iff (x : Externals) (hcodec : codec.Undoes)
    (hfile : files file.path = none ∨ Valid codec file files) (conns : List PinConnection) :
    TrustsFirstUse x codec file files conns ↔ files file.path ≠ none ∨ conns = [] := by
  constructor
  · intro h
    by_cases hmissing : files file.path = none
    · refine Or.inr ?_
      cases conns with
      | nil => rfl
      | cons conn conns =>
        have hnone : recorded codec file files (x.strToLowercase conn.host) = none := by
          rw [recorded_of_load (PinnedCertificates.load_missing codec hmissing)]
          rfl
        have hfirst := (h.first [] conn conns rfl hnone).1
        obtain ⟨error, hconnect⟩ := connect_missing x codec conn hmissing
        have herror : (conn.connect x codec file files).1 = .error error :=
          congrArg Prod.fst hconnect
        cases herror.symm.trans hfirst
    · exact Or.inl hmissing
  · rintro (hthere | rfl)
    · exact trustsFirstUse_of_valid hcodec (hfile.resolve_left hthere) conns
    · refine ⟨fun pre conn rest hsplit => ?_, fun pre conn mid later rest hsplit => ?_,
        fun _ _ _ pre conn rest hsplit => ?_⟩
      all_goals cases pre <;> cases hsplit

open CertificateVerifier (certificateExternals firstCertificate changedCertificate)

def samplePins : AList fun _ : Text => Text :=
  (∅ : AList fun _ : Text => Text).insert "host".toList
    (sha256Fingerprint certificateExternals firstCertificate)

def sampleJson : Text :=
  "\x7b\n  \"host\": \"".toList ++ sha256Fingerprint certificateExternals firstCertificate ++
    "\"\n\x7d".toList

/-- Other pins than those of the sample are packed into the length of a text. -/
def packed (entries : List (Sigma fun _ : Text => Text)) : Text :=
  List.replicate (Encodable.encode (entries.map fun e => (e.1.map Char.toNat, e.2.map Char.toNat)))
    'x'

def unpacked (text : Text) : List (Sigma fun _ : Text => Text) :=
  ((Encodable.decode text.length : Option (List (List Nat × List Nat))).getD []).map fun e =>
    ⟨e.1.map Char.ofNat, e.2.map Char.ofNat⟩

theorem unpacked_packed (entries : List (Sigma fun _ : Text => Text)) :
    unpacked (packed entries) = entries := by
  have hchars : ∀ text : Text, (text.map Char.toNat).map Char.ofNat = text := by
    intro text
    rw [List.map_map]
    exact (List.map_congr_left fun c _ => Char.ofNat_toNat c).trans (List.map_id text)
  unfold unpacked packed
  rw [List.length_replicate, Encodable.encodek, Option.getD_some, List.map_map]
  refine (List.map_congr_left fun e _ => ?_).trans (List.map_id entries)
  show (⟨(e.1.map Char.toNat).map Char.ofNat, (e.2.map Char.toNat).map Char.ofNat⟩ :
    Sigma fun _ : Text => Text) = e
  rw [hchars, hchars]

def sampleCodec : PinCodec where
  encode entries := if entries = samplePins then sampleJson else packed entries.entries
  decode text :=
    if text = "\x7b\x7d".toList then .ok ∅
    else if text = sampleJson then .ok samplePins
    else .ok (unpacked text).toAList

theorem sampleCodec_undoes : sampleCodec.Undoes := by
  intro entries
  have hbrace : ∀ text : Text, '\x7b' ∈ text → packed entries.entries ≠ text := by
    intro text hmem heq
    rw [← heq] at hmem
    exact absurd (List.eq_of_mem_replicate hmem) (by decide)
  unfold sampleCodec
  dsimp only
  by_cases hsample : entries = samplePins
  · have hfirst : ¬sampleJson = "\x7b\x7d".toList := by decide +kernel
    refine ⟨samplePins, ?_, fun host => ?_⟩
    · rw [if_pos hsample, if_neg hfirst, if_pos rfl]
    · rw [hsample]
  · refine ⟨entries.entries.toAList, ?_, fun host => ?_⟩
    · have hempty := hbrace "\x7b\x7d".toList List.mem_cons_self
      have hother := hbrace sampleJson List.mem_cons_self
      rw [if_neg hsample, if_neg hempty, if_neg hother, unpacked_packed]
    · exact AList.lookup_to_alist _

def pinFile : PinFile := ⟨"/d/pins.json".toList, some "/d".toList⟩

/-- A pin file without pins. -/
def emptyPins : Files Text UInt8 := fun _ => some (Text.asBytes "\x7b\x7d".toList)

def changingHost : List PinConnection :=
  [⟨"Host".toList, firstCertificate⟩, ⟨"host".toList, changedCertificate⟩]

theorem trustsFirstUse_iff_changingHost :
    TrustsFirstUse certificateExternals sampleCodec pinFile emptyPins changingHost ↔
      emptyPins pinFile.path ≠ none ∨ changingHost = [] :=
  trustsFirstUse_iff certificateExternals sampleCodec_undoes
    (Or.inr ⟨∅, PinnedCertificates.load_text rfl rfl⟩) changingHost

/-- Without a pin file the first connection is refused, and so is every other one. -/
theorem first_use_is_refused :
    ¬ ∀ conns, TrustsFirstUse certificateExternals sampleCodec pinFile (fun _ => none) conns := by
  intro h
  have hfirst := ((h changingHost).first [] ⟨"Host".toList, firstCertificate⟩ _ rfl rfl).1
  cases hfirst

end PinConnection

end RemoteDesktopTool
