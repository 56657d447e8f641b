import RemoteDesktopTool.Agent
import RemoteDesktopTool.LinesInPieces
import RemoteDesktopTool.TextWords
import RemoteDesktopTool.Utf8Text

namespace RemoteDesktopTool

open Checked

/-- One line of a control connection and its answer. -/
structure Exchange where
  connection : Nat
  raw : List UInt8
  line : Text
  stamp : UInt64
  reply : Reply

/-- The reply that `serde_json` writes is one line and is read back; nothing is read from a blank
line. -/
structure AgentTexts.Lawful {V S D : Type} (texts : AgentTexts V S D)
    (readReply : Text → Option Reply) : Prop where
  decodes : ∀ reply text, texts.reply reply = .ok text → readReply text = some reply
  oneLine : ∀ reply text, texts.reply reply = .ok text → '\n' ∉ text ∧ '\r' ∉ text
  blank : readReply [] = none

variable {V S D : Type} {texts : AgentTexts V S D} {stamp : UInt64}
  {read : Except IoError Text} {line : Text} {reply : Reply}

/-- What the audit trail is told of an exchange; `audits` is the policy of the manager. -/
def Exchange.records (texts : AgentTexts V S D) (audits : Bool) (e : Exchange) :
    List AuditRecord :=
  match texts.command e.line with
  | .ok (.connect profile) =>
    match ProfileId.fromStr profile with
    | some (.ok id) =>
      if e.reply.ok then
        [Agent.connected e.stamp id (e.reply.message.drop "connecting to ".length)]
      else []
    | _ => []
  | .ok (.disconnect session) =>
    match SessionId.fromStr session with
    | some (.ok id) =>
      if audits then
        [⟨⟨.sessionClosed, .denied, some id.toText, "cancelled by the user".toList⟩, e.stamp, none⟩]
      else []
    | _ => []
  | _ => []

namespace Agent

variable {agent handled : Agent S D}

theorem stampAll_cancel (id : SessionId) : stampAll stamp (agent.sessions.cancel id).2 =
    if agent.sessions.policy.audit then
      [⟨⟨.sessionClosed, .denied, some id.toText, "cancelled by the user".toList⟩, stamp, none⟩]
    else [] := by
  rw [SessionManager.cancel_eq]
  cases haudit : agent.sessions.policy.audit <;>
    simp [stampAll, SessionManager.notice, haudit, SessionManager.auditKind,
      SessionManager.auditOutcome]

theorem connecting_drop (address : Text) :
    ("connecting to ".toList ++ address).drop "connecting to ".length = address :=
  List.drop_left

/-- An answer and the audit trail agree. -/
theorem answer_audited [Inhabited S]
    (h : agent.answer texts stamp read line = some (reply, handled)) (connection : Nat)
    (raw : List UInt8) :
    handled.audited = agent.audited ++
        Exchange.records texts agent.sessions.policy.audit ⟨connection, raw, line, stamp, reply⟩ ∧
      handled.sessions.policy = agent.sessions.policy := by
  unfold answer at h
  split at h
  next command hcommand =>
    obtain ⟨⟨result, agent'⟩, hhandle, hreply⟩ := Option.map_eq_some_iff.mp h
    unfold Exchange.records
    rw [hcommand]
    cases command with
    | status =>
      cases Option.some.inj hhandle
      cases hreply
      exact ⟨(List.append_nil _).symm, rfl⟩
    | listSessions =>
      cases Option.some.inj hhandle
      cases hreply
      exact ⟨(List.append_nil _).symm, rfl⟩
    | connect profile =>
      obtain ⟨parsed, hparsed, hresult⟩ := Option.map_eq_some_iff.mp hhandle
      dsimp only
      rw [hparsed]
      cases parsed with
      | error error =>
        cases hresult
        cases hreply
        exact ⟨(List.append_nil _).symm, rfl⟩
      | ok id =>
        cases hfind : agent.config.find id with
        | none =>
          simp only [hfind] at hresult
          cases hresult
          cases hreply
          exact ⟨(List.append_nil _).symm, rfl⟩
        | some found =>
          simp only [hfind] at hresult
          cases hresult
          cases hreply
          simp only [Reply.success, if_true, connecting_drop, and_self]
    | disconnect session =>
      obtain ⟨parsed, hparsed, hresult⟩ := Option.map_eq_some_iff.mp hhandle
      dsimp only
      rw [hparsed]
      cases parsed with
      | error error =>
        cases hresult
        cases hreply
        exact ⟨(List.append_nil _).symm, rfl⟩
      | ok id =>
        cases hresult
        cases hreply
        exact ⟨congrArg _ (stampAll_cancel id), by rw [SessionManager.cancel_eq]⟩
    | reloadConfig =>
      simp only [handle] at hhandle
      split at hhandle <;>
        (cases Option.some.inj hhandle
         cases hreply
         exact ⟨(List.append_nil _).symm, rfl⟩)
  next error hcommand =>
    cases Option.some.inj h
    unfold Exchange.records
    rw [hcommand]
    exact ⟨(List.append_nil _).symm, rfl⟩

end Agent

/-- One line with its end. -/
def EndedLine (raw : List UInt8) : Prop := ∃ body : List UInt8, 0x0A ∉ body ∧ raw = body ++ [0x0A]

/-- The pieces are lines at the front of what was received. Only when the client has closed its
end, what it has left behind the last line feed is a piece as well. -/
def LinesOf (ended : Bool) (received : List UInt8) (raws : List (List UInt8)) : Prop :=
  (∀ raw ∈ raws, EndedLine raw) ∧ raws.flatten <+: received ∨
    ∃ front last, raws = front ++ [last] ∧ (∀ raw ∈ front, EndedLine raw) ∧ last ≠ [] ∧
      0x0A ∉ last ∧ ended = true ∧ raws.flatten = received

namespace ControlConnection

variable {connection : ControlConnection} {own : List Exchange} {raw unread : List UInt8}

theorem nextRaw_cases {ended : Bool} (h : nextRaw ended unread = some raw) :
    EndedLine raw ∧ raw <+: unread ∨ ended = true ∧ raw ≠ [] ∧ 0x0A ∉ raw ∧ raw = unread := by
  have hbody : (0x0A : UInt8) ∉ unread.takeWhile (· ≠ 0x0A) := fun hmem => by
    have hne := List.mem_takeWhile_imp hmem
    simp at hne
  dsimp only [nextRaw] at h
  split at h
  next hlen =>
    cases Option.some.inj h
    refine Or.inl ⟨⟨_, hbody, rfl⟩, ?_⟩
    have hsplit := List.takeWhile_append_dropWhile (p := (· ≠ 0x0A)) (l := unread)
    cases hrest : unread.dropWhile (· ≠ 0x0A) with
    | nil =>
      rw [hrest, List.append_nil] at hsplit
      rw [hsplit] at hlen
      exact absurd hlen (Nat.lt_irrefl _)
    | cons b rest =>
      have hb : b = 0x0A := by
        have hne : unread.dropWhile (· ≠ 0x0A) ≠ [] := by
          rw [hrest]
          exact List.cons_ne_nil _ _
        have hhead := List.head_dropWhile_not (· ≠ (0x0A : UInt8)) hne
        simp only [hrest, List.head_cons] at hhead
        simpa using hhead
      rw [hrest, hb] at hsplit
      exact ⟨rest, by rw [List.append_assoc]; exact hsplit⟩
  next hlen =>
    split at h
    next hended =>
      rw [← Option.some.inj h]
      obtain ⟨hended, hsome⟩ := Bool.and_eq_true_iff.mp hended
      have hall : unread.takeWhile (· ≠ 0x0A) = unread := by
        have hfront := List.takeWhile_prefix (p := (· ≠ (0x0A : UInt8))) (l := unread)
        exact hfront.eq_of_length_le (Nat.le_of_not_lt hlen)
      rw [hall] at hbody
      have hne : unread ≠ [] := by
        rintro rfl
        cases hsome
      exact Or.inr ⟨hended, hne, hbody, rfl⟩
    next => cases h

/-- The bytes of the replies to some exchanges. -/
def repliesTo (texts : AgentTexts V S D) (own : List Exchange) : List UInt8 :=
  Text.asBytes (wholeLines (own.map fun e => ControlSocket.replyText texts e.reply))

/-- The connection has had the exchanges `own`. -/
structure Follows (texts : AgentTexts V S D) (own : List Exchange)
    (connection : ControlConnection) : Prop where
  inside : connection.position ≤ connection.received.length
  read : connection.received.take connection.position = (own.map Exchange.raw).flatten
  lines : LinesOf connection.ended connection.received (own.map Exchange.raw)
  sent : connection.written <+: repliesTo texts own
  complete : connection.serving = true → connection.written = repliesTo texts own

theorem repliesTo_concat (own : List Exchange) (e : Exchange) :
    repliesTo texts (own ++ [e]) = repliesTo texts own ++
      Text.asBytes (ControlSocket.replyText texts e.reply ++ ['\n']) := by
  have hone (line : Text) : wholeLines [line] = line ++ ['\n'] := List.flatMap_singleton _ _
  rw [repliesTo, repliesTo, List.map_append, wholeLines_append, List.map_singleton, hone]
  exact List.flatMap_append

theorem Follows.accepted : Follows texts [] accepted where
  inside := Nat.le_refl 0
  read := rfl
  lines := Or.inl ⟨List.forall_mem_nil _, List.nil_prefix⟩
  sent := List.prefix_rfl
  complete := fun _ => rfl

theorem Follows.receive (h : Follows texts own connection) (bytes : List UInt8) :
    Follows texts own (if connection.ended then connection
      else { connection with received := connection.received ++ bytes }) := by
  split
  next => exact h
  next hended =>
    refine ⟨?_, ?_, ?_, h.sent, h.complete⟩
    · show connection.position ≤ (connection.received ++ bytes).length
      rw [List.length_append]
      exact Nat.le_add_right_of_le h.inside
    · show (connection.received ++ bytes).take connection.position = _
      rw [List.take_append_of_le_length h.inside]
      exact h.read
    · rcases h.lines with ⟨hlines, hfront⟩ | ⟨_, _, _, _, _, _, hclosed, _⟩
      · exact Or.inl ⟨hlines, hfront.trans (List.prefix_append _ bytes)⟩
      · exact absurd hclosed hended

theorem Follows.finish (h : Follows texts own connection) :
    Follows texts own { connection with ended := true } := by
  refine ⟨h.inside, h.read, ?_, h.sent, h.complete⟩
  rcases h.lines with hlines | ⟨front, last, hraws, hfront, hne, hlast, _, hall⟩
  · exact Or.inl hlines
  · exact Or.inr ⟨front, last, hraws, hfront, hne, hlast, rfl, hall⟩

/-- A line that is read comes behind whole lines. -/
theorem Follows.lines_concat (h : Follows texts own connection)
    (hraw : nextRaw connection.ended (connection.received.drop connection.position) = some raw) :
    raw <+: connection.received.drop connection.position ∧
      LinesOf connection.ended connection.received (own.map Exchange.raw ++ [raw]) := by
  have hsplit := List.take_append_drop connection.position connection.received
  rcases h.lines with ⟨hlines, _⟩ | ⟨_, _, _, _, _, _, _, hall⟩
  · rcases nextRaw_cases hraw with ⟨hline, hfront⟩ | ⟨hended, hne, hnewline, hrest⟩
    · refine ⟨hfront, Or.inl ⟨?_, ?_⟩⟩
      · exact List.forall_mem_append.mpr ⟨hlines, List.forall_mem_singleton.mpr hline⟩
      · rw [List.flatten_concat, ← h.read]
        conv_rhs => rw [← hsplit]
        exact (List.prefix_append_right_inj _).mpr hfront
    · refine ⟨hrest ▸ List.prefix_rfl, Or.inr ⟨_, raw, rfl, hlines, hne, hnewline, hended, ?_⟩⟩
      rw [List.flatten_concat, ← h.read, hrest]
      exact hsplit
  · -- all was read already
    rw [← h.read] at hall
    have hnone : connection.received.drop connection.position = [] := by
      rw [hall] at hsplit
      exact List.append_right_eq_self.mp hsplit
    rw [hnone, nextRaw] at hraw
    simp at hraw

variable [Inhabited S] {agent handled : Agent S D} {served : ControlConnection}
  {broken : Option Nat}

/-- One turn of a connection's loop answers at most one line. -/
theorem Follows.turn (h : Follows texts own connection) (hserving : connection.serving = true)
    (hturn : ControlSocket.turn texts stamp read broken agent connection =
      some (handled, served)) (i : Nat) :
    (handled = agent ∧ Follows texts own served) ∨
    ∃ e : Exchange, e.connection = i ∧
      Parser.strFromUtf8 (lineOf e.raw) = some e.line ∧
      agent.answer texts e.stamp read e.line = some (e.reply, handled) ∧
      Follows texts (own ++ [e]) served := by
  unfold ControlSocket.turn at hturn
  split at hturn
  next =>
    cases Option.some.inj hturn
    exact Or.inl ⟨rfl, h.inside, h.read, h.lines, h.sent, fun _ => h.complete hserving⟩
  next raw hraw =>
    obtain ⟨hfront, hlines⟩ := h.lines_concat hraw
    split at hturn
    next =>
      cases Option.some.inj hturn
      exact Or.inl ⟨rfl, h.inside, h.read, h.lines, h.sent, Bool.noConfusion⟩
    next line hline =>
      obtain ⟨⟨reply, agent'⟩, hanswer, hserved⟩ := Option.map_eq_some_iff.mp hturn
      cases hserved
      refine Or.inr ⟨⟨i, raw, line, stamp, reply⟩, rfl, hline, hanswer, ?_⟩
      have hlength : raw.length ≤ connection.received.length - connection.position := by
        rw [← List.length_drop]
        exact hfront.length_le
      have hwritten := h.complete hserving
      refine ⟨?_, ?_, ?_, ?_, fun hbroken => ?_⟩
      · show connection.position + raw.length ≤ connection.received.length
        have hinside := h.inside
        omega
      · show connection.received.take (connection.position + raw.length) = _
        rw [List.take_add, h.read, List.map_append, List.map_singleton, List.flatten_concat,
          ← List.prefix_iff_eq_take.mp hfront]
      · show LinesOf connection.ended connection.received _
        rw [List.map_append]
        exact hlines
      · show connection.written ++ _ <+: _
        rw [repliesTo_concat, hwritten]
        exact List.prefix_append_right_inj _ |>.mpr (List.take_prefix _ _)
      · show connection.written ++ _ = _
        have hwhole : broken = none := Option.isNone_iff_eq_none.mp hbroken
        rw [repliesTo_concat, hwritten, hwhole, Option.getD_none, List.take_length]

end ControlConnection

namespace ControlSocket

/-- The owner of the service connects. -/
def ofOwner (uid : UInt32) : ControlStep S D → Bool
  | .accept (some peer) => peer == uid
  | _ => false

/-- The exchanges of one connection. -/
def own (i : Nat) (log : List Exchange) : List Exchange := log.filter fun e => e.connection = i

/-- What the agent and its clients have had since `start`: the exchanges in `log`. -/
structure Accounts (texts : AgentTexts V S D) (uid : UInt32) (start : Agent S D)
    (steps : List (ControlStep S D)) (socket : ControlSocket S D) (log : List Exchange) :
    Prop where
  policy : socket.agent.sessions.policy = start.sessions.policy
  audited : socket.agent.audited =
    start.audited ++ log.flatMap (Exchange.records texts start.sessions.policy.audit)
  accepted : socket.connections.length = steps.countP (ofOwner uid)
  known : ∀ e ∈ log, e.connection < socket.connections.length
  decoded : ∀ e ∈ log, Parser.strFromUtf8 (ControlConnection.lineOf e.raw) = some e.line
  follows : ∀ i (connection : ControlConnection), socket.connections[i]? = some connection →
    connection.Follows texts (own i log)

variable {uid : UInt32} {start : Agent S D} {steps : List (ControlStep S D)}
  {socket : ControlSocket S D} {log : List Exchange} {quoted : Text → Text}

theorem own_concat_self {i : Nat} {e : Exchange} (h : e.connection = i) :
    own i (log ++ [e]) = own i log ++ [e] := by
  simp [own, h]

theorem own_concat_ne {i : Nat} {e : Exchange} (h : e.connection ≠ i) :
    own i (log ++ [e]) = own i log := by
  simp [own, h]

/-- Nothing was said on a connection that is not there yet. -/
theorem own_of_known {n : Nat} (h : ∀ e ∈ log, e.connection < n) : own n log = [] := by
  refine List.filter_eq_nil_iff.mpr fun e hmem => ?_
  have hlt := h e hmem
  simp only [decide_eq_true_eq]
  omega

theorem Accounts.accept (h : Accounts texts uid start steps socket log)
    (credentials : Option UInt32) {socket' : ControlSocket S D} [Inhabited S]
    (hnext : next texts quoted uid (.accept credentials) socket = some socket') :
    Accounts texts uid start (steps ++ [.accept credentials]) socket' log := by
  rw [next] at hnext
  split at hnext
  next error hpeer =>
    cases Option.some.inj hnext
    refine { h with accepted := ?_ }
    have hother : ofOwner (S := S) (D := D) uid (.accept credentials) = false := by
      cases credentials with
      | none => rfl
      | some peer =>
        refine beq_eq_false_iff_ne.mpr fun heq => ?_
        rw [verifyPeer, if_neg (not_not.mpr heq)] at hpeer
        cases hpeer
    rw [List.countP_append, List.countP_singleton, hother]
    exact h.accepted
  next hpeer =>
    cases Option.some.inj hnext
    have howner : ofOwner (S := S) (D := D) uid (.accept credentials) = true := by
      cases credentials with
      | none => cases hpeer
      | some peer =>
        refine beq_iff_eq.mpr ?_
        by_contra hne
        rw [verifyPeer, if_pos hne] at hpeer
        cases hpeer
    refine ⟨h.policy, h.audited, ?_, fun e hmem => ?_, h.decoded, fun i connection hi => ?_⟩
    · rw [List.length_append, h.accepted, List.countP_append, List.countP_singleton, howner]
      rfl
    · rw [List.length_append]
      exact Nat.lt_add_right _ (h.known e hmem)
    · rcases Nat.lt_or_ge i socket.connections.length with hlt | hge
      · exact h.follows i connection ((List.getElem?_append_left hlt).symm.trans hi)
      · rw [List.getElem?_append_right hge] at hi
        have hi0 : i - socket.connections.length = 0 := by
          have hlen := (List.getElem?_eq_some_iff.mp hi).1
          rw [List.length_singleton] at hlen
          omega
        rw [hi0] at hi
        cases Option.some.inj hi
        have hlast : i = socket.connections.length := by omega
        rw [hlast, own_of_known h.known]
        exact .accepted

/-- A change of one connection that the exchanges do not see. -/
theorem Accounts.modify (h : Accounts texts uid start steps socket log) {i : Nat}
    {f : ControlConnection → ControlConnection}
    (hf : ∀ own (connection : ControlConnection), connection.Follows texts own →
      (f connection).Follows texts own)
    {step : ControlStep S D} (hstep : ofOwner uid step = false) :
    Accounts texts uid start (steps ++ [step])
      { socket with connections := socket.connections.modify i f } log where
  policy := h.policy
  audited := h.audited
  accepted := by
    rw [List.length_modify, List.countP_append, List.countP_singleton, hstep]
    exact h.accepted
  known := fun e hmem => by
    rw [List.length_modify]
    exact h.known e hmem
  decoded := h.decoded
  follows := fun j connection hj => by
    rw [List.getElem?_modify] at hj
    obtain ⟨old, hold, rfl⟩ := Option.map_eq_some_iff.mp hj
    have hfollows := h.follows j old hold
    split
    next => exact hf _ _ hfollows
    next => exact hfollows

/-- A turn of the loop of one connection. -/
theorem Accounts.serve [Inhabited S] (h : Accounts texts uid start steps socket log) {i : Nat}
    {broken : Option Nat} {socket' : ControlSocket S D}
    (hnext : next texts quoted uid (.serve i stamp read broken) socket = some socket') :
    ∃ log', Accounts texts uid start (steps ++ [.serve i stamp read broken]) socket' log' := by
  have hcount : socket.connections.length =
      (steps ++ [ControlStep.serve i stamp read broken]).countP (ofOwner uid) := by
    rw [List.countP_append]
    exact h.accepted
  rw [next] at hnext
  split at hnext
  next =>
    cases Option.some.inj hnext
    exact ⟨log, { h with accepted := hcount }⟩
  next connection hi =>
    split at hnext
    next hserving =>
      obtain ⟨⟨handled, served⟩, hturn, rfl⟩ := Option.map_eq_some_iff.mp hnext
      have hlt := (List.getElem?_eq_some_iff.mp hi).1
      have hset (j : Nat) (c : ControlConnection) (own' : List Exchange)
          (hself : served.Follows texts own')
          (hj : (socket.connections.set i served)[j]? = some c) :
          i = j ∧ c.Follows texts own' ∨ i ≠ j ∧ c.Follows texts (own j log) := by
        by_cases heq : i = j
        · subst heq
          rw [List.getElem?_set_self hlt] at hj
          cases Option.some.inj hj
          exact Or.inl ⟨rfl, hself⟩
        · rw [List.getElem?_set_ne heq] at hj
          exact Or.inr ⟨heq, h.follows j c hj⟩
      rcases (h.follows i connection hi).turn hserving hturn i with
        ⟨rfl, hself⟩ | ⟨e, rfl, hline, hanswer, hself⟩
      · refine ⟨log, h.policy, h.audited, ?_, ?_, h.decoded, fun j c hj => ?_⟩
        · rw [List.length_set]
          exact hcount
        · rw [List.length_set]
          exact h.known
        · rcases hset j c _ hself hj with ⟨rfl, hc⟩ | ⟨_, hc⟩
          · exact hc
          · exact hc
      · obtain ⟨haudited, hpolicy⟩ := Agent.answer_audited hanswer e.connection e.raw
        refine ⟨log ++ [e], hpolicy.trans h.policy, ?_, ?_, ?_, ?_, fun j c hj => ?_⟩
        · rw [haudited, h.audited, h.policy, List.flatMap_append, List.flatMap_singleton,
            List.append_assoc]
        · rw [List.length_set]
          exact hcount
        · intro e' hmem
          rw [List.length_set]
          rcases List.mem_append.mp hmem with hmem | hmem
          · exact h.known e' hmem
          · cases List.mem_singleton.mp hmem
            exact hlt
        · intro e' hmem
          rcases List.mem_append.mp hmem with hmem | hmem
          · exact h.decoded e' hmem
          · cases List.mem_singleton.mp hmem
            exact hline
        · rcases hset j c _ hself hj with ⟨rfl, hc⟩ | ⟨hne, hc⟩
          · rw [own_concat_self rfl]
            exact hc
          · rw [own_concat_ne hne]
            exact hc
    next =>
      cases Option.some.inj hnext
      exact ⟨log, { h with accepted := hcount }⟩

theorem Accounts.next [Inhabited S] (h : Accounts texts uid start steps socket log)
    {step : ControlStep S D} {socket' : ControlSocket S D}
    (hnext : ControlSocket.next texts quoted uid step socket = some socket') :
    ∃ log', Accounts texts uid start (steps ++ [step]) socket' log' := by
  have hcount (hstep : ofOwner uid step = false) :
      socket.connections.length = (steps ++ [step]).countP (ofOwner uid) := by
    rw [List.countP_append, List.countP_singleton, hstep]
    exact h.accepted
  cases step with
  | accept credentials => exact ⟨log, h.accept credentials hnext⟩
  | receive i bytes =>
    cases Option.some.inj hnext
    exact ⟨log, h.modify (fun own connection hc => hc.receive bytes) rfl⟩
  | finish i =>
    cases Option.some.inj hnext
    exact ⟨log, h.modify (fun own connection hc => hc.finish) rfl⟩
  | serve i stamp read broken => exact h.serve hnext
  | sessions op =>
    cases Option.some.inj hnext
    exact ⟨log, (SessionManager.next_policy op).trans h.policy, h.audited, hcount rfl, h.known,
      h.decoded, h.follows⟩
  | config e =>
    cases Option.some.inj hnext
    exact ⟨log, h.policy, h.audited, hcount rfl, h.known, h.decoded, h.follows⟩

theorem accounts_run [Inhabited S] (start : Agent S D) {steps : List (ControlStep S D)}
    (hrun : run (ControlSocket.next texts quoted uid) steps ⟨start, []⟩ = some socket) :
    ∃ log, Accounts texts uid start steps socket log := by
  induction steps using List.reverseRecOn generalizing socket with
  | nil =>
    cases Option.some.inj hrun
    exact ⟨[], rfl, (List.append_nil _).symm, rfl, fun e hmem => absurd hmem List.not_mem_nil,
      fun e hmem => absurd hmem List.not_mem_nil, fun i connection hi => by cases hi⟩
  | append_singleton steps step ih =>
    rw [run_concat] at hrun
    obtain ⟨before, hbefore, hnext⟩ := Option.bind_eq_some_iff.mp hrun
    obtain ⟨log, h⟩ := ih hbefore
    exact h.next hnext

/-- What a client makes of the bytes that it gets. -/
def clientReads (readReply : Text → Option Reply) (bytes : List UInt8) : Option (List Reply) :=
  (Parser.strFromUtf8 bytes).map fun text => text.lines.filterMap readReply

theorem clientReads_repliesTo {readReply : Text → Option Reply} (h : texts.Lawful readReply)
    (own : List Exchange) :
    clientReads readReply (ControlConnection.repliesTo texts own) =
      some ((own.map Exchange.reply).filter fun reply => (texts.reply reply).toOption.isSome) := by
  have hline (reply : Reply) : '\n' ∉ replyText texts reply ∧
      stripReturn (replyText texts reply) = replyText texts reply ∧
      readReply (replyText texts reply) =
        if (texts.reply reply).toOption.isSome then some reply else none := by
    cases htext : texts.reply reply with
    | error error =>
      have hnil : replyText texts reply = [] := by rw [replyText, htext]; rfl
      rw [hnil]
      exact ⟨List.not_mem_nil, rfl, h.blank⟩
    | ok text =>
      have hsome : replyText texts reply = text := by rw [replyText, htext]; rfl
      obtain ⟨hnewline, hreturn⟩ := h.oneLine reply text htext
      rw [hsome]
      exact ⟨hnewline, if_neg fun hlast => hreturn (List.mem_of_getLast? hlast),
        h.decodes reply text htext⟩
  rw [clientReads, ControlConnection.repliesTo, strFromUtf8_asBytes, Option.map_some]
  refine congrArg some ?_
  rw [wholeLines, lines_ended]
  · induction own with
    | nil => rfl
    | cons e own ih =>
      obtain ⟨_, hkept, hread⟩ := hline e.reply
      rw [List.map_cons, List.map_cons, List.filterMap_cons, hkept, hread, List.map_cons,
        List.filter_cons]
      by_cases hwritten : (texts.reply e.reply).toOption.isSome = true
      · rw [if_pos hwritten, if_pos hwritten, ← ih]
      · rw [if_neg hwritten, if_neg hwritten, ← ih]
  · intro line hmem
    obtain ⟨e, _, rfl⟩ := List.mem_map.mp hmem
    exact (hline e.reply).1

/-- The agent's control socket keeps its accounts in every interleaving of its connections with
the rest of the program: only the owner's connections are served, each line of one is answered
once and in order, and what the clients are told agrees with the audit trail. -/
theorem control_accounts [Inhabited S] {readReply : Text → Option Reply}
    (hlawful : texts.Lawful readReply) (start : Agent S D) {steps : List (ControlStep S D)}
    (hrun : run (ControlSocket.next texts quoted uid) steps ⟨start, []⟩ = some socket) :
    ∃ log : List Exchange,
      socket.agent.audited =
        start.audited ++ log.flatMap (Exchange.records texts start.sessions.policy.audit) ∧
      (∀ e ∈ log, e.connection < steps.countP (ofOwner uid) ∧
        Parser.strFromUtf8 (ControlConnection.lineOf e.raw) = some e.line) ∧
      ∀ i connection, socket.connections[i]? = some connection →
        LinesOf connection.ended connection.received ((own i log).map Exchange.raw) ∧
        connection.written <+: ControlConnection.repliesTo texts (own i log) ∧
        (connection.serving = true → clientReads readReply connection.written =
          some (((own i log).map Exchange.reply).filter fun reply =>
            (texts.reply reply).toOption.isSome)) := by
  obtain ⟨log, h⟩ := accounts_run start hrun
  refine ⟨log, h.audited, fun e hmem => ⟨?_, h.decoded e hmem⟩, fun i connection hi => ?_⟩
  · rw [← h.accepted]
    exact h.known e hmem
  · have hfollows := h.follows i connection hi
    refine ⟨hfollows.lines, hfollows.sent, fun hserving => ?_⟩
    rw [hfollows.complete hserving, clientReads_repliesTo hlawful]

def statusLine : Text := "\x7b\"command\":\"status\"\x7d".toList

def statusReply : Reply := .success "rdt-agent 1.0.0 on linux".toList

/-- The line of that reply. -/
def statusReplyText : Text :=
  "\x7b\"ok\":true,\"message\":\"rdt-agent 1.0.0 on linux\"\x7d".toList

/-- `serde_json` on the status command and its reply, and a configuration that is not read. -/
def statusTexts : AgentTexts Unit Unit Unit where
  command line := if line = statusLine then .ok .status else .error "expected value".toList
  reply reply := if reply = statusReply then .ok statusReplyText else .error []
  sessions _ := .ok "[]".toList
  toml := ⟨fun _ => none, fun _ => .ok (), fun _ _ => (), fun _ => .ok [], fun _ => .ok .standard⟩
  status := "rdt-agent 1.0.0 on linux".toList
  shown error := error.message

def readStatus (line : Text) : Option Reply :=
  if line = statusReplyText then some statusReply else none

theorem statusTexts_lawful : statusTexts.Lawful readStatus := by
  have hreply (reply : Reply) (text : Text) (h : statusTexts.reply reply = .ok text) :
      reply = statusReply ∧ text = statusReplyText := by
    change (if reply = statusReply then _ else _) = _ at h
    split at h
    next heq => exact ⟨heq, (Except.ok.inj h).symm⟩
    next => cases h
  refine ⟨fun reply text h => ?_, fun reply text h => ?_, by decide +kernel⟩
  · obtain ⟨rfl, rfl⟩ := hreply reply text h
    exact if_pos rfl
  · obtain ⟨rfl, rfl⟩ := hreply reply text h
    decide +kernel

def idleAgent : Agent Unit Unit := ⟨.inMemory, ⟨∅, ⟨16, true⟩⟩, []⟩

/-- The owner and another user connect, and the owner asks for the status in two pieces. -/
def statusSteps : List (ControlStep Unit Unit) :=
  [.accept (some 1000), .accept (some 0), .receive 0 (Text.asBytes (statusLine.take 5)),
    .serve 0 0 (.ok []) none, .receive 0 (Text.asBytes (statusLine.drop 5 ++ ['\n'])),
    .serve 0 0 (.ok []) none]

theorem control_accounts_status :
    ∃ socket, run (ControlSocket.next statusTexts id 1000) statusSteps ⟨idleAgent, []⟩ =
      some socket ∧ ∃ log : List Exchange,
      socket.agent.audited =
        idleAgent.audited ++ log.flatMap (Exchange.records statusTexts true) ∧
      (∀ e ∈ log, e.connection < statusSteps.countP (ofOwner 1000) ∧
        Parser.strFromUtf8 (ControlConnection.lineOf e.raw) = some e.line) ∧
      ∀ i connection, socket.connections[i]? = some connection →
        LinesOf connection.ended connection.received ((own i log).map Exchange.raw) ∧
        connection.written <+: ControlConnection.repliesTo statusTexts (own i log) ∧
        (connection.serving = true → clientReads readStatus connection.written =
          some (((own i log).map Exchange.reply).filter fun reply =>
            (statusTexts.reply reply).toOption.isSome)) := by
  obtain ⟨socket, hrun⟩ := Option.isSome_iff_exists.mp
    (show (run (ControlSocket.next statusTexts id 1000) statusSteps
      ⟨idleAgent, []⟩).isSome = true by decide +kernel)
  exact ⟨socket, hrun, control_accounts statusTexts_lawful idleAgent hrun⟩

end ControlSocket

end RemoteDesktopTool
