import RemoteDesktopTool.HostKeyDeciders
import RemoteDesktopTool.KnownHostsRuns
import RemoteDesktopTool.SshAuthentication

namespace RemoteDesktopTool

open FileSteps

variable {x : Externals} {keyType : Text} {key : List UInt8} {files : Files Text UInt8}
  {db : KnownHosts}

/-- The user while `connect` runs: nobody receives the events, prompts among them, before it has
returned a session, and the reply channels are dropped with the events of a failed attempt. -/
def PromptUser.unanswered : PromptUser := ⟨true, none⟩

/-- A connection attempt with what it meets: the type of the key that the server shows and the
key, if the handshake comes that far, and the server's answers behind it. -/
structure SshVisit (κ : Type) where
  connection : SshConnection
  knownHostsPath : Option Text
  policy : HostKeyPolicy
  presented : Option (Text × List UInt8)
  sources : KeySources κ
  server : AuthServer κ
  outcomes : ConnectOutcomes
  /-- How the handshake ends where the check of the key does not let it go on. -/
  refusal : ClientConnect
  unshown : presented = none → outcomes.connect ≠ .connected
  refused : refusal ≠ .connected

/-- What a visit comes to; `asked` are the prompts that were queued. -/
structure VisitOutcome (κ : Type) where
  attempt : SshAttempt κ
  asked : List UnknownHostKey
  files : Files Text UInt8

namespace SshVisit

variable {κ : Type}

def database (x : Externals) (files : Files Text UInt8) (visit : SshVisit κ) :
    RdtResult KnownHosts :=
  match visit.knownHostsPath with
  | some path => KnownHosts.load x path files
  | none => .ok .empty

def handler (visit : SshVisit κ) (db : KnownHosts) : ClientHandler where
  knownHosts := db
  host := visit.connection.host
  port := visit.connection.port
  policy := visit.policy
  acceptedFingerprint := none

/-- `connect`, once it is known how the database and the handshake turn out. -/
def attempt (visit : SshVisit κ) (knownHosts : RdtResult Unit) (connect : ClientConnect) :
    SshAttempt κ :=
  visit.connection.connect visit.sources visit.server
    { visit.outcomes with knownHosts := knownHosts, connect := connect }

/-- `SshSession::connect` with the handler it gives to the SSH library. -/
def run (x : Externals) (files : Files Text UInt8) (visit : SshVisit κ) : VisitOutcome κ :=
  if visit.connection.host.trim = [] ∨ visit.connection.username.trim = [] then
    ⟨visit.attempt (.ok ()) visit.outcomes.connect, [], files⟩
  else
    match visit.database x files, visit.presented with
    | .error error, _ => ⟨visit.attempt (.error error) visit.outcomes.connect, [], files⟩
    | .ok _, none => ⟨visit.attempt (.ok ()) visit.outcomes.connect, [], files⟩
    | .ok db, some shown =>
      let check := (visit.handler db).checkServerKey x shown.1 shown.2 .unanswered
      let connect : ClientConnect :=
        match check.result with
        | .ok true => visit.outcomes.connect
        | _ => visit.refusal
      -- `remember_host_key` runs behind an answer only.
      let saved := check.asked ≠ [] ∧ PromptUser.unanswered.answer = some .acceptAndSave
      ⟨visit.attempt (.ok ()) connect, check.asked,
        if saved then (check.handler.knownHosts.save x none files).2 else files⟩

/-- The verdict on the key that the server shows, if the database is there and a key is shown. -/
def verdict (x : Externals) (files : Files Text UInt8) (visit : SshVisit κ) :
    Option HostKeyStatus :=
  match visit.database x files, visit.presented with
  | .ok db, some shown => some ((visit.handler db).status x shown.1 shown.2)
  | _, _ => none

/-- Nothing is said to the server by which the user could be known, and no channel is opened. -/
structure Withheld (attempt : SshAttempt κ) : Prop where
  requests : attempt.exchange.requests = []
  channel : attempt.channel = []
  failed : ∃ error, attempt.result = .error error

/-- What is done one after the other: connection attempts, and files that the user writes or
deletes by hand. -/
inductive Event (κ : Type)
  | visit (visit : SshVisit κ)
  | edit (path : Text) (contents : Option (List UInt8))

def Event.isEdit : Event κ → Bool
  | .visit _ => false
  | .edit _ _ => true

def next (x : Externals) (files : Files Text UInt8) : Event κ → Files Text UInt8
  | .visit visit => (visit.run x files).files
  | .edit path contents => Function.update files path contents

def filesAfter (x : Externals) (files : Files Text UInt8) (events : List (Event κ)) :
    Files Text UInt8 :=
  Runs.after (next x) files events

section

variable {visit : SshVisit κ} {shown : Text × List UInt8}

/-- The attempt comes to the server's authentication, or it tells the server nothing. -/
theorem withheld_or_connected (visit : SshVisit κ) (knownHosts : RdtResult Unit)
    (connect : ClientConnect) :
    Withheld (visit.attempt knownHosts connect) ∨
      ¬(visit.connection.host.trim = [] ∨ visit.connection.username.trim = []) ∧
        knownHosts = .ok () ∧ connect = .connected := by
  unfold attempt SshConnection.connect
  split
  next => exact Or.inl ⟨rfl, rfl, _, rfl⟩
  next hhost =>
    split
    next => exact Or.inl ⟨rfl, rfl, _, rfl⟩
    next husername =>
      split
      next => exact Or.inl ⟨rfl, rfl, _, rfl⟩
      next => exact Or.inl ⟨rfl, rfl, _, rfl⟩
      next => exact Or.inl ⟨rfl, rfl, _, rfl⟩
      next hok hconnected => exact Or.inr ⟨not_or.mpr ⟨hhost, husername⟩, hok, hconnected⟩

theorem withheld_of_not_connected {knownHosts : RdtResult Unit} {connect : ClientConnect}
    (h : connect ≠ .connected) : Withheld (visit.attempt knownHosts connect) :=
  (withheld_or_connected visit knownHosts connect).resolve_right fun hall => h hall.2.2

/-- Without an answer the check goes on for trusted keys only. -/
theorem check_unanswered (handler : ClientHandler) :
    handler.status x keyType key = .trusted ∧
        (handler.checkServerKey x keyType key .unanswered).ContinuesUnasked ∨
      handler.status x keyType key ≠ .trusted ∧
        ∃ error, (handler.checkServerKey x keyType key .unanswered).result = .error error := by
  rcases HandlerRef.checkServerKey_outcome x handler.cloneForCallback keyType key .unanswered with
    ⟨htrusted | hyes, _⟩ | ⟨hnot, hrefused, _⟩
  · exact Or.inl ⟨htrusted, (HandlerRef.continuesUnasked_iff handler.cloneForCallback _).mpr
      htrusted⟩
  · obtain ⟨_, _, _, hanswer | hanswer⟩ := hyes
    · cases hanswer
    · cases hanswer
  · exact Or.inr ⟨fun htrusted => hnot (Or.inl htrusted), hrefused⟩

theorem run_of_shown
    (hnamed : ¬(visit.connection.host.trim = [] ∨ visit.connection.username.trim = []))
    (hdb : visit.database x files = .ok db) (hshown : visit.presented = some shown) :
    visit.run x files =
      let check := (visit.handler db).checkServerKey x shown.1 shown.2 .unanswered
      ⟨visit.attempt (.ok ())
          (match check.result with
            | .ok true => visit.outcomes.connect
            | _ => visit.refusal),
        check.asked, files⟩ := by
  have hsaved : ¬(((visit.handler db).checkServerKey x shown.1 shown.2 .unanswered).asked ≠ [] ∧
      PromptUser.unanswered.answer = some .acceptAndSave) := by
    rintro ⟨_, hanswer⟩
    cases hanswer
  rw [run, if_neg hnamed, hdb, hshown]
  dsimp only
  rw [if_neg hsaved]

theorem verdict_of_shown (hdb : visit.database x files = .ok db)
    (hshown : visit.presented = some shown) :
    visit.verdict x files = some ((visit.handler db).status x shown.1 shown.2) := by
  rw [verdict, hdb, hshown]

/-- All that a visit can come to. -/
theorem run_cases (x : Externals) (files : Files Text UInt8) (visit : SshVisit κ) :
    (visit.run x files).files = files ∧
      ((visit.verdict x files = some .trusted ∧ (visit.run x files).asked = [] ∧
          (visit.run x files).attempt = visit.attempt (.ok ()) visit.outcomes.connect) ∨
        (visit.verdict x files ≠ some .trusted ∧ Withheld (visit.run x files).attempt)) := by
  by_cases hnamed : visit.connection.host.trim = [] ∨ visit.connection.username.trim = []
  · rw [run, if_pos hnamed]
    refine ⟨rfl, ?_⟩
    by_cases htrusted : visit.verdict x files = some .trusted
    · exact Or.inl ⟨htrusted, rfl, rfl⟩
    · exact Or.inr ⟨htrusted,
        (withheld_or_connected visit _ _).resolve_right fun hall => hall.1 hnamed⟩
  cases hdb : visit.database x files with
  | error error =>
    rw [run, if_neg hnamed, verdict, hdb]
    dsimp only
    refine ⟨rfl, Or.inr ⟨nofun, (withheld_or_connected visit _ _).resolve_right ?_⟩⟩
    rintro ⟨_, hread, _⟩
    cases hread
  | ok db =>
    cases hshown : visit.presented with
    | none =>
      rw [run, if_neg hnamed, verdict, hdb, hshown]
      exact ⟨rfl, Or.inr ⟨nofun, withheld_of_not_connected (visit.unshown hshown)⟩⟩
    | some shown =>
      rw [run_of_shown hnamed hdb hshown, verdict, hdb, hshown]
      refine ⟨rfl, ?_⟩
      dsimp only
      rcases check_unanswered (visit.handler db) with ⟨htrusted, hgoes⟩ | ⟨hnot, error, hresult⟩
      · rw [htrusted, hgoes.1]
        exact Or.inl ⟨rfl, hgoes.2, rfl⟩
      · rw [hresult]
        exact Or.inr ⟨fun htrusted => hnot (Option.some.inj htrusted),
          withheld_of_not_connected visit.refused⟩

end

/-- The visits leave no trace in the files. -/
theorem filesAfter_eq_edits (x : Externals) (files : Files Text UInt8)
    (events : List (Event κ)) :
    filesAfter x files events = filesAfter x files (events.filter Event.isEdit) := by
  induction events generalizing files with
  | nil => rfl
  | cons event events ih =>
    cases event with
    | visit visit =>
      have hsame : next x files (.visit visit) = files := (run_cases x files visit).1
      rw [filesAfter, Runs.after_cons, hsame]
      exact ih files
    | edit path contents => exact ih (Function.update files path contents)

/-- Visits write no file, so what is trusted is what the user's edits say, and a server is told
something exactly if its key is trusted by then. No user ever has a prompt. -/
theorem only_trusted_are_told (x : Externals) (files : Files Text UInt8)
    (events : List (Event κ)) (visit : SshVisit κ) :
    let files' := filesAfter x files events
    let outcome := visit.run x files'
    files' = filesAfter x files (events.filter Event.isEdit) ∧ outcome.files = files' ∧
      (visit.verdict x files' = some .trusted →
        outcome.attempt = visit.attempt (.ok ()) visit.outcomes.connect) ∧
      (visit.verdict x files' ≠ some .trusted → Withheld outcome.attempt) ∧
      (outcome.attempt.result = .ok () → outcome.asked = []) := by
  obtain ⟨hfiles, hcases⟩ := run_cases x (filesAfter x files events) visit
  refine ⟨filesAfter_eq_edits x files events, hfiles, ?_⟩
  rcases hcases with ⟨htrusted, hasked, hattempt⟩ | ⟨hnot, hwithheld⟩
  · exact ⟨fun _ => hattempt, fun hnot => absurd htrusted hnot, fun _ => hasked⟩
  · refine ⟨fun htrusted => absurd htrusted hnot, fun _ => hwithheld, fun hresult => ?_⟩
    obtain ⟨error, herror⟩ := hwithheld.failed
    rw [hresult] at herror
    cases herror

open HostConnection

/-- A visit to the host of the newcomer, under the policy that asks. -/
def newVisit : SshVisit Unit where
  connection := { guest with host := newcomer.host, port := newcomer.port }
  knownHostsPath := some "/d/known_hosts".toList
  policy := .acceptNew
  presented := some (newcomer.keyType, newcomer.key)
  sources := noKeys
  server := fun _ => .ok .accept
  outcomes := reachable
  refusal := .timedOut
  unshown := fun hnone => absurd hnone (Option.some_ne_none _)
  refused := by decide

/-- The line of the newcomer. -/
def newcomerLine : Text := "[example.org]:2222 ssh-ed25519 AQID\n".toList

/-- The user writes the line into the file. -/
def writeLine : Event Unit := .edit "/d/known_hosts".toList (some newcomerLine.asBytes)

theorem verdict_newVisit (h : files "/d/known_hosts".toList = some newcomerLine.asBytes) :
    newVisit.verdict base64Externals files = some .trusted := by
  have hdb : newVisit.database base64Externals files =
      .ok { KnownHosts.parse base64Externals newcomerLine with
        path := some "/d/known_hosts".toList } := KnownHosts.load_text h
  rw [verdict_of_shown hdb rfl]
  decide +kernel

/-- The prompt of the first visit stays unanswered; the line of the user lets the next one in. -/
theorem only_trusted_are_told_newcomer :
    let before := filesAfter base64Externals emptyHosts [.visit newVisit]
    let behind := filesAfter base64Externals emptyHosts [.visit newVisit, writeLine]
    (newVisit.run base64Externals emptyHosts).asked.length = 1 ∧
      Withheld (newVisit.run base64Externals before).attempt ∧
      (newVisit.run base64Externals behind).attempt.exchange.requests =
        [.none guest.username] := by
  intro before behind
  have hfirst := only_trusted_are_told base64Externals emptyHosts [.visit newVisit] newVisit
  have hsecond :=
    only_trusted_are_told base64Externals emptyHosts [.visit newVisit, writeLine] newVisit
  have hnext : behind = Function.update before "/d/known_hosts".toList
      (some newcomerLine.asBytes) := rfl
  have hwritten : behind "/d/known_hosts".toList = some newcomerLine.asBytes := by
    rw [hnext, Function.update_self]
  refine ⟨rfl, hfirst.2.2.2.1 (by decide), ?_⟩
  rw [hsecond.2.2.1 (verdict_newVisit hwritten)]
  rfl

end SshVisit

end RemoteDesktopTool
