import RemoteDesktopTool.AuditLog
import RemoteDesktopTool.Utf8Cuts

namespace RemoteDesktopTool

open Checked FileSteps

/-- What `serde_json` writes of a record is one line, an object, and is read back. -/
structure AuditJson.Lawful (json : AuditJson) : Prop where
  decodes : ∀ event text, json.toString event = .ok text → json.fromStr text = some event
  object : ∀ event text, json.toString event = .ok text → ∃ rest, text = '{' :: rest
  oneLine : ∀ event text, json.toString event = .ok text → '\n' ∉ text ∧ '\r' ∉ text

/-- The lines of a file that are ended. -/
def finished (content : Text) : Text := content.rdropWhile (· ≠ '\n')

/-- What stands behind the last `\n`. -/
def unfinished (content : Text) : Text := content.rtakeWhile (· ≠ '\n')

/-- The record can be read behind what a file holds: in the line that it makes up with the
unfinished one or, if that line is no record, because the record before it is the same. -/
def AuditJson.Mends (json : AuditJson) (content : Text) (event : AuditRecord) (line : Text) :
    Prop :=
  json.fromStr (unfinished content ++ line) = some event ∨
    json.fromStr (unfinished content ++ line) = none ∧
      (json.events (finished content)).getLast? = some event

/-- The files after a call that succeeds. -/
def AuditLog.recorded (json : AuditJson) (log : AuditLog) (call : AuditRecord × Option AppendFault)
    (files : Files Text UInt8) : Option (Files Text UInt8) :=
  match log.record json call.1 call.2 files with
  | (.ok _, files) => some files
  | (.error _, _) => none

theorem lines_append_newline (a b : Text) :
    Text.lines (a ++ '\n' :: b) = (a.splitOn '\n').map stripReturn ++ Text.lines b := by
  have hsplit : (a ++ '\n' :: b).splitOn '\n' = a.splitOn '\n' ++ b.splitOn '\n' :=
    List.splitOnP_append_cons a b (beq_self_eq_true '\n')
  have hne : b.splitOn '\n' ≠ [] := List.splitOnP_ne_nil _ b
  rw [Text.lines, Text.lines, hsplit, List.dropLast_append_of_ne_nil hne,
    List.getLast?_append_of_ne_nil _ hne, List.map_append, List.append_assoc]

theorem lines_of_not_mem {line : Text} (b : Text) (hline : '\n' ∉ line) :
    Text.lines (line ++ '\n' :: b) = stripReturn line :: Text.lines b := by
  rw [lines_append_newline, List.splitOn_eq_singleton hline]
  rfl

namespace AuditJson

variable {json : AuditJson}

theorem events_append_newline (a b : Text) :
    json.events (a ++ '\n' :: b) = json.events (a ++ ['\n']) ++ json.events b := by
  have hlines : Text.lines [] = [] := rfl
  rw [events, events, events, lines_append_newline, lines_append_newline, hlines, List.append_nil,
    List.filterMap_append]

theorem events_line {line : Text} (b : Text) (hline : '\n' ∉ line)
    (hreturn : line.getLast? ≠ some '\r') :
    json.events (line ++ '\n' :: b) = (json.fromStr line).toList ++ json.events b := by
  have hkept : stripReturn line = line := if_neg hreturn
  rw [events, events, lines_of_not_mem b hline, hkept, List.filterMap_cons]
  cases json.fromStr line <;> rfl

/-- Lines that are ended are read by themselves. -/
theorem events_finished (content rest : Text) :
    json.events (content ++ rest) =
      json.events (finished content) ++ json.events (unfinished content ++ rest) := by
  have hsplit : finished content ++ unfinished content = content :=
    List.rdropWhile_append_rtakeWhile
  have hassoc : content ++ rest = finished content ++ (unfinished content ++ rest) := by
    rw [← List.append_assoc, hsplit]
  rw [hassoc]
  by_cases hnil : finished content = []
  · rw [hnil]
    rfl
  · have hlast : (finished content).getLast hnil = '\n' := by
      have hnot : ¬decide ((finished content).getLast hnil ≠ '\n') = true :=
        List.rdropWhile_last_not _ _ hnil
      simpa using hnot
    obtain ⟨front, hfront⟩ : ∃ front, finished content = front ++ ['\n'] :=
      ⟨_, by rw [← hlast, List.dropLast_append_getLast hnil]⟩
    rw [hfront, List.append_assoc, List.singleton_append, events_append_newline]

theorem not_mem_unfinished (content : Text) : '\n' ∉ unfinished content := by
  intro hmem
  have hne := List.mem_rtakeWhile_imp hmem
  simp at hne

variable {event : AuditRecord} {line : Text}

/-- A record that is written behind a file makes up a line with the unfinished one. -/
theorem Lawful.events_record (h : json.Lawful) (hline : json.toString event = .ok line)
    (content rest : Text) :
    json.events (content ++ (line ++ '\n' :: rest)) =
      json.events (finished content) ++
        ((json.fromStr (unfinished content ++ line)).toList ++ json.events rest) := by
  obtain ⟨hnewline, hreturn⟩ := h.oneLine event line hline
  obtain ⟨tail, hobject⟩ := h.object event line hline
  have hlast : (unfinished content ++ line).getLast? ≠ some '\r' := by
    have hne : line ≠ [] := by
      rw [hobject]
      exact List.cons_ne_nil _ _
    rw [List.getLast?_append_of_ne_nil _ hne]
    exact fun hlast => hreturn (List.mem_of_getLast? hlast)
  have hmem : '\n' ∉ unfinished content ++ line := by
    rw [List.mem_append, not_or]
    exact ⟨not_mem_unfinished content, hnewline⟩
  rw [events_finished, ← List.append_assoc, events_line rest hmem hlast]

theorem Lawful.events_lines (h : json.Lawful) {events : List AuditRecord} {lines : List Text}
    (hlines : List.Forall₂ (fun event line => json.toString event = .ok line) events lines) :
    json.events (lines.flatMap (· ++ ['\n'])) = events := by
  induction hlines with
  | nil => rfl
  | @cons event line events lines hline _ ih =>
    obtain ⟨hnewline, hreturn⟩ := h.oneLine event line hline
    rw [List.flatMap_cons, List.append_assoc, List.singleton_append,
      events_line _ hnewline fun hlast => hreturn (List.mem_of_getLast? hlast), ih,
      h.decodes event line hline]
    rfl

/-- What a file is read as behind which records are written. -/
theorem Lawful.events_behind (h : json.Lawful) (hline : json.toString event = .ok line)
    {events : List AuditRecord} {lines : List Text}
    (hlines : List.Forall₂ (fun event line => json.toString event = .ok line) events lines)
    (content : Text) :
    json.events (content ++ (line :: lines).flatMap (· ++ ['\n'])) =
      json.events (finished content) ++ (json.fromStr (unfinished content ++ line)).toList ++
        events := by
  rw [List.flatMap_cons, List.append_assoc line, List.singleton_append,
    h.events_record hline, h.events_lines hlines, List.append_assoc]

end AuditJson

/-- A list that is cut to its last `limit` elements ends as before, so far as these go. -/
theorem suffix_drop_iff {α : Type} {ended list : List α} {limit : Nat}
    (hlimit : ended.length ≤ limit) :
    ended <:+ list.drop (list.length - limit) ↔ ended <:+ list := by
  refine ⟨fun h => h.trans (List.drop_suffix _ _), ?_⟩
  rintro ⟨front, rfl⟩
  have hle : front.length + ended.length - limit ≤ front.length := by omega
  rw [List.length_append, List.drop_append_of_le_length hle]
  exact List.suffix_append _ _

theorem cons_suffix_append_iff {α : Type} {a : α} {front rest : List α} :
    a :: rest <:+ front ++ rest ↔ front.getLast? = some a := by
  rw [List.getLast?_eq_some_iff]
  constructor
  · rintro ⟨before, heq⟩
    have happend : before ++ [a] ++ rest = front ++ rest := by simpa using heq
    exact ⟨before, (List.append_cancel_right happend).symm⟩
  · rintro ⟨before, rfl⟩
    exact ⟨before, by simp⟩

namespace AuditLog

variable {json : AuditJson} {log : AuditLog} {files files' : Files Text UInt8} {limit : Nat}

theorem recorded_cases {call : AuditRecord × Option AppendFault}
    (h : log.recorded json call files = some files') :
    ∃ line, json.toString (log.redactedEvent call.1) = .ok line ∧
      files' = appendTo files log.path (Text.asBytes (line ++ ['\n'])) := by
  unfold recorded record at h
  cases hline : json.toString (log.redactedEvent call.1) with
  | error error =>
    rw [hline] at h
    cases h
  | ok line =>
    rw [hline] at h
    refine ⟨line, rfl, ?_⟩
    cases hfault : call.2 with
    | none =>
      rw [hfault] at h
      exact (Option.some.inj h).symm
    | some fault =>
      rw [hfault] at h
      cases fault <;> cases h

/-- What the audit file holds; a missing file holds nothing. -/
def content (log : AuditLog) (files : Files Text UInt8) : List UInt8 := (files log.path).getD []

theorem content_appendTo (bytes : List UInt8) :
    log.content (appendTo files log.path bytes) = log.content files ++ bytes := by
  rw [content, appendTo, Function.update_self]
  rfl

/-- Calls that succeed append one line for each record. -/
theorem content_of_run {calls : List (AuditRecord × Option AppendFault)}
    (h : run (log.recorded json) calls files = some files') :
    ∃ lines, List.Forall₂ (fun event line => json.toString event = .ok line)
        (calls.map fun call => log.redactedEvent call.1) lines ∧
      log.content files' =
        log.content files ++ Text.asBytes (lines.flatMap (· ++ ['\n'])) := by
  induction calls generalizing files with
  | nil =>
    cases Option.some.inj h
    exact ⟨[], .nil, (List.append_nil _).symm⟩
  | cons call calls ih =>
    obtain ⟨files₁, hcall, hrun⟩ := Option.bind_eq_some_iff.mp h
    obtain ⟨line, hline, rfl⟩ := recorded_cases hcall
    obtain ⟨lines, hlines, hcontent⟩ := ih hrun
    refine ⟨line :: lines, .cons hline hlines, ?_⟩
    rw [hcontent, content_appendTo, List.flatMap_cons, List.append_assoc, ← asBytes_append]

theorem readRecent_of_text {text : Text}
    (h : Parser.strFromUtf8 (log.content files) = some text) :
    log.readRecent json limit files =
      .ok ((json.events text).drop ((json.events text).length - limit)) := by
  unfold content at h
  unfold readRecent readRecentFrom readToString
  cases hfile : files log.path with
  | none =>
    rw [hfile] at h
    cases Option.some.inj ((strFromUtf8_asBytes []).symm.trans h)
    have hnone : json.events [] = [] := rfl
    simp [hnone]
  | some bytes =>
    rw [hfile] at h
    have htext : Parser.strFromUtf8 bytes = some text := h
    simp only [htext]

theorem readRecent_of_not_text (h : Parser.strFromUtf8 (log.content files) = none) :
    ∃ error, log.readRecent json limit files = .error error := by
  unfold content at h
  unfold readRecent readRecentFrom readToString
  cases hfile : files log.path with
  | none =>
    rw [hfile] at h
    cases (strFromUtf8_asBytes []).symm.trans h
  | some bytes =>
    rw [hfile] at h
    have htext : Parser.strFromUtf8 bytes = none := h
    simp only [htext]
    exact ⟨_, rfl⟩

/-- The records are read back, redacted, as the last ones. -/
def Keeps (json : AuditJson) (log : AuditLog) (limit : Nat) (events : List AuditRecord)
    (files : Files Text UInt8) : Prop :=
  ∃ read, log.readRecent json limit files = .ok read ∧ events.map log.redactedEvent <:+ read

theorem keeps_iff {events : List AuditRecord} (hlimit : events.length ≤ limit) :
    log.Keeps json limit events files ↔
      ∃ text, Parser.strFromUtf8 (log.content files) = some text ∧
        events.map log.redactedEvent <:+ json.events text := by
  have hlength : (events.map log.redactedEvent).length ≤ limit := by
    rw [List.length_map]
    exact hlimit
  cases htext : Parser.strFromUtf8 (log.content files) with
  | none =>
    obtain ⟨error, herror⟩ : ∃ error, log.readRecent json limit files = .error error :=
      readRecent_of_not_text htext
    refine iff_of_false ?_ ?_
    · rintro ⟨read, hread, _⟩
      cases herror.symm.trans hread
    · rintro ⟨text, hsome, _⟩
      cases hsome
  | some text =>
    have hread : log.readRecent json limit files = _ := readRecent_of_text htext
    constructor
    · rintro ⟨read, hread', hsuffix⟩
      cases Except.ok.inj (hread.symm.trans hread')
      exact ⟨text, rfl, (suffix_drop_iff hlength).mp hsuffix⟩
    · rintro ⟨_, hsome, hsuffix⟩
      cases Option.some.inj hsome
      exact ⟨_, hread, (suffix_drop_iff hlength).mpr hsuffix⟩

/-- The last record that is read behind a file, when the first line that follows it is read. -/
theorem mends_iff {text line : Text} {event : AuditRecord} :
    json.Mends text event line ↔
      (json.events (finished text) ++
        (json.fromStr (unfinished text ++ line)).toList).getLast? = some event := by
  unfold AuditJson.Mends
  cases json.fromStr (unfinished text ++ line) with
  | none => simp
  | some other => simp

/-- After calls that succeed a reading ends with their records, redacted, exactly when the file was
UTF-8 before and the first record can be read behind what it held. -/
theorem trail_kept_iff (hjson : json.Lawful) {calls : List (AuditRecord × Option AppendFault)}
    (hrun : run (log.recorded json) calls files = some files') (hlimit : calls.length ≤ limit) :
    log.Keeps json limit (calls.map Prod.fst) files' ↔
      ∃ text, Parser.strFromUtf8 (log.content files) = some text ∧
        ∀ call ∈ calls.head?, ∀ line, json.toString (log.redactedEvent call.1) = .ok line →
          json.Mends text (log.redactedEvent call.1) line := by
  obtain ⟨lines, hlines, hcontent⟩ := content_of_run hrun
  have hlength : (calls.map Prod.fst).length ≤ limit := by
    rw [List.length_map]
    exact hlimit
  rw [keeps_iff hlength, hcontent, List.map_map]
  cases calls with
  | nil =>
    cases hlines
    simp [Text.asBytes]
  | cons call calls =>
    cases hlines with
    | @cons _ line _ lines hline hrest =>
      have hdecode (whole : Text) :
          Parser.strFromUtf8 (log.content files ++
            Text.asBytes ((line :: lines).flatMap (· ++ ['\n']))) = some whole ↔
          ∃ text, Parser.strFromUtf8 (log.content files) = some text ∧
            whole = text ++ (line :: lines).flatMap (· ++ ['\n']) := by
        obtain ⟨tail, rfl⟩ := hjson.object _ line hline
        exact strFromUtf8_append_iff (c := '{') (by decide)
      simp only [hdecode, List.map_cons, List.head?_cons, Option.mem_some_iff, forall_eq']
      constructor
      · rintro ⟨_, ⟨text, htext, rfl⟩, hsuffix⟩
        refine ⟨text, htext, fun line' hline' => ?_⟩
        cases Except.ok.inj (hline.symm.trans hline')
        rw [hjson.events_behind hline hrest] at hsuffix
        exact mends_iff.mpr (cons_suffix_append_iff.mp hsuffix)
      · rintro ⟨text, htext, hmends⟩
        refine ⟨_, ⟨text, htext, rfl⟩, ?_⟩
        rw [hjson.events_behind hline hrest]
        exact cons_suffix_append_iff.mpr (mends_iff.mp (hmends line hline))

def closedEvent : AuditRecord := ⟨⟨.sessionClosed, .info, none, "closed".toList⟩, 0, none⟩

/-- The line of that record. -/
def closedLine : Text :=
  ("\x7b\"stamp\":0,\"kind\":\"session_closed\",\"outcome\":\"info\"," ++
    "\"detail\":\"closed\"\x7d").toList

/-- `serde_json` on that record. -/
def closedJson : AuditJson where
  toString event := if event = closedEvent then .ok closedLine else .error "another record".toList
  fromStr line := if line = closedLine then some closedEvent else none

theorem closedJson_lawful : closedJson.Lawful := by
  have hline (event : AuditRecord) (text : Text) (h : closedJson.toString event = .ok text) :
      event = closedEvent ∧ text = closedLine := by
    change (if event = closedEvent then _ else _) = _ at h
    split at h
    next hevent => exact ⟨hevent, (Except.ok.inj h).symm⟩
    next => cases h
  refine ⟨fun event text h => ?_, fun event text h => ?_, fun event text h => ?_⟩
  · obtain ⟨rfl, rfl⟩ := hline event text h
    simp only [closedJson, if_true]
  · obtain ⟨rfl, rfl⟩ := hline event text h
    exact ⟨closedLine.tail, by decide⟩
  · obtain ⟨rfl, rfl⟩ := hline event text h
    decide

def closedLog : AuditLog := ⟨"audit.jsonl".toList, .new⟩

/-- The audit file, cut off in a record. -/
def tornFiles (bytes : List UInt8) : Files Text UInt8 :=
  fun path => if path = closedLog.path then some bytes else none

theorem run_closed (bytes : List UInt8) :
    run (closedLog.recorded closedJson) [(closedEvent, none)] (tornFiles bytes) =
      some (appendTo (tornFiles bytes) closedLog.path (Text.asBytes (closedLine ++ ['\n']))) := by
  have hredacted : closedLog.redactedEvent closedEvent = closedEvent := by decide +kernel
  have hline : closedJson.toString closedEvent = .ok closedLine := by
    simp only [closedJson, if_true]
  rw [run_singleton]
  simp only [recorded, record, hredacted, hline]

theorem trail_kept_closed :
    closedJson.Lawful ∧ (closedLog.Keeps closedJson 1 [closedEvent]
      (appendTo (tornFiles [0x7B]) closedLog.path (Text.asBytes (closedLine ++ ['\n']))) ↔
    ∃ text, Parser.strFromUtf8 (closedLog.content (tornFiles [0x7B])) = some text ∧
      ∀ call ∈ [(closedEvent, (none : Option AppendFault))].head?, ∀ line,
        closedJson.toString (closedLog.redactedEvent call.1) = .ok line →
          closedJson.Mends text (closedLog.redactedEvent call.1) line) :=
  ⟨closedJson_lawful, trail_kept_iff closedJson_lawful (run_closed [0x7B]) (Nat.le_refl 1)⟩

/-- Behind a line that a crash cut off in its first byte the next record is lost, and behind half a
character the whole trail is. -/
theorem torn_line_swallows_record :
    (∃ files', run (closedLog.recorded closedJson) [(closedEvent, none)] (tornFiles [0x7B]) =
        some files' ∧ closedLog.readRecent closedJson 1 files' = .ok [] ∧
        ¬closedLog.Keeps closedJson 1 [closedEvent] files') ∧
    ∃ files', run (closedLog.recorded closedJson) [(closedEvent, none)] (tornFiles [0xC3]) =
        some files' ∧ (∃ error, closedLog.readRecent closedJson 1 files' = .error error) ∧
        ¬closedLog.Keeps closedJson 1 [closedEvent] files' := by
  have hcontent (bytes : List UInt8) : closedLog.content (appendTo (tornFiles bytes)
      closedLog.path (Text.asBytes (closedLine ++ ['\n']))) =
        bytes ++ Text.asBytes (closedLine ++ ['\n']) :=
    content_appendTo _
  refine ⟨⟨_, run_closed [0x7B], ?_⟩, ⟨_, run_closed [0xC3], ?_⟩⟩
  · have htext : Parser.strFromUtf8 (closedLog.content (appendTo (tornFiles [0x7B])
        closedLog.path (Text.asBytes (closedLine ++ ['\n'])))) =
          some ('{' :: (closedLine ++ ['\n'])) := by
      rw [hcontent]
      exact strFromUtf8_asBytes ('{' :: (closedLine ++ ['\n']))
    have hevents : closedJson.events ('{' :: (closedLine ++ ['\n'])) = [] := by decide +kernel
    have hread : closedLog.readRecent closedJson 1 _ = _ := readRecent_of_text htext
    rw [hevents] at hread
    refine ⟨hread, fun hkeeps => ?_⟩
    obtain ⟨read, hsome, hsuffix⟩ := hkeeps
    cases Except.ok.inj (hread.symm.trans hsome)
    cases List.suffix_nil.mp hsuffix
  · have hnone : Parser.strFromUtf8 (closedLog.content (appendTo (tornFiles [0xC3])
        closedLog.path (Text.asBytes (closedLine ++ ['\n'])))) = none := by
      rw [hcontent]
      decide +kernel
    obtain ⟨error, herror⟩ : ∃ error, closedLog.readRecent closedJson 1 _ = .error error :=
      readRecent_of_not_text hnone
    refine ⟨⟨error, herror⟩, fun hkeeps => ?_⟩
    obtain ⟨read, hsome, _⟩ := hkeeps
    cases herror.symm.trans hsome

end AuditLog

end RemoteDesktopTool
