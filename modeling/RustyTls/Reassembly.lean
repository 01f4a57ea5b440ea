import RustyTls.Ratchet

/-!
# RustyTls.Reassembly

How the post-handshake messages of a peer may be put into records.

A peer may put several messages into one record, as long as an update is the last of its record:
what follows it is under the next key. `readAll_group` says what a connection makes of such a
record, and from it the results compare a way of grouping messages with one message a record.
The secrets come out the same; so do the sessions, except that a record with a ticket and an
update that asks for an answer is refused as a whole.
-/

namespace RustyTls

open Core

/-! ### Sending and reading a series of records -/

/-- Send the fragments one a record. -/
def Direction.emitAll (ring : Ring) : Direction → List (Bytes × Bool) →
    Option (List Bytes × Direction)
  | direction, [] => some ([], direction)
  | direction, (fragment, updates) :: rest => do
      let (record, direction) ← direction.emit ring .handshake fragment updates
      let (records, direction) ← emitAll ring direction rest
      some (record :: records, direction)

/-- The update of a group of messages is its last. -/
def endsUpdate (group : List Message) : Bool :=
  match group.getLast? with
  | some m => m.typ = .keyUpdate
  | none => false

/-- The fragments that carry the groups of messages, one a group. -/
def fragmentsOf (groups : List (List Message)) : List (Bytes × Bool) :=
  groups.map fun group => (octets group, endsUpdate group)

namespace Connection

/-- Read the records one after the other, whatever comes of each. -/
def readAll (ring : Ring) : Connection → List Bytes →
    List (Except ClientError Incoming) × Connection
  | connection, [] => ([], connection)
  | connection, record :: rest =>
      let (result, connection) := connection.read ring record
      let (results, connection) := readAll ring connection rest
      (result :: results, connection)

/-- The sessions a read returns. -/
def sessionsOf : Except ClientError Incoming → List Session
  | .ok (.tickets sessions) => sessions
  | _ => []

/-! ### One group -/

/-- A message as the protocol has it: an update with one of its two bodies, or a ticket. -/
def WellFormed (ring : Ring) (connection : Connection) (m : Message) : Prop :=
  Framed m ∧ (m.typ = .keyUpdate ∧ (m.body = [0x00] ∨ m.body = [0x01]) ∨
    m.typ = .newSessionTicket ∧ ∃ session, connection.sessionFrom ring m.body = .ok session)

/-- The sending direction after the answers to a list of messages. -/
def sendingAfter (ring : Ring) (sending : Direction) (ms : List Message) : Direction :=
  ms.foldl (fun direction m =>
    if m.typ = .keyUpdate ∧ m.body = [0x01] then
      ((direction.answer ring).map Prod.snd).getD direction
    else
      direction) sending

/-- A connection after a group of messages. -/
def afterGroup {ring : Ring} (lawful : ring.Lawful) (connection : Connection)
    (group : List Message) : Connection :=
  (connection.withReceiving
    (if endsUpdate group then connection.receiving.next lawful else connection.receiving)).withSending
      (sendingAfter ring connection.sending group)

section Group

variable {ring : Ring} (lawful : ring.Lawful)

/-- One message. -/
theorem postHandshakeMessage_wellFormed (connection : Connection) {m : Message}
    (h : connection.WellFormed ring m) :
    (m.typ = .newSessionTicket ∧
      connection.postHandshakeMessage ring m = (.ok ([], connection.sessionOf ring m), connection)) ∨
    (m.typ = .keyUpdate ∧ m.body ≠ [0x01] ∧
      connection.postHandshakeMessage ring m = (.ok ([], []), connection.afterGroup lawful [m])) ∨
    (Requests m ∧ ∃ result,
      connection.postHandshakeMessage ring m = (result, connection.afterGroup lawful [m]) ∧
      ((∃ err, result = .error err) ∨ ∃ reply, reply ≠ [] ∧ result = .ok (reply, []))) := by
  rcases postHandshakeMessage_eq lawful connection m with
    ⟨hrefused, -⟩ | ⟨htyp, -, hmessage⟩ | ⟨htyp, hbody, hmessage⟩ |
    ⟨hrequests, reply, hanswer, hmessage⟩ | ⟨hrequests, hanswer, err, hmessage⟩
  · refine absurd ?_ hrefused
    rcases h.2 with ⟨htyp, -⟩ | ⟨htyp, hsession⟩
    · exact .inl htyp
    · exact .inr ⟨htyp, .inr hsession⟩
  · exact .inl ⟨htyp, hmessage⟩
  · refine .inr (.inl ⟨htyp, hbody, ?_⟩)
    rw [hmessage]
    simp [afterGroup, endsUpdate, sendingAfter, htyp, hbody]
    rfl
  · refine .inr (.inr ⟨hrequests, _, ?_, .inr ⟨reply, (Direction.answer_next lawful hanswer).2, rfl⟩⟩)
    rw [hmessage]
    simp [afterGroup, endsUpdate, sendingAfter, hrequests.1, hrequests.2, hanswer]
  · refine .inr (.inr ⟨hrequests, _, ?_, .inl ⟨err, rfl⟩⟩)
    rw [hmessage]
    simp [afterGroup, endsUpdate, sendingAfter, hrequests.1, hrequests.2, hanswer]
    rfl

theorem endsUpdate_cons (m : Message) {group : List Message} (hne : group ≠ []) :
    endsUpdate (m :: group) = endsUpdate group := by
  obtain ⟨next, rest, rfl⟩ := List.exists_cons_of_ne_nil hne
  simp [endsUpdate]

/-- A ticket in front of a group makes no difference to where it leads. -/
theorem afterGroup_ticket (connection : Connection) {m : Message} {group : List Message}
    (hne : group ≠ []) (htyp : m.typ = .newSessionTicket) :
    connection.afterGroup lawful (m :: group) = connection.afterGroup lawful group := by
  simp [afterGroup, endsUpdate_cons m hne, sendingAfter, htyp]

/-- What the loop makes of a group whose update, if it has one, is its last message. -/
theorem postHandshakeLoop_group (connection : Connection) {group : List Message}
    (hformed : ∀ m ∈ group, connection.WellFormed ring m)
    (hlast : ∀ m ∈ group.dropLast, m.typ ≠ .keyUpdate) :
    ∃ result, connection.postHandshakeLoop ring group
        = (result, connection.afterGroup lawful group) ∧
      ((¬ (∃ m ∈ group, Requests m) ∧
          result = .ok ([], group.flatMap (connection.sessionOf ring))) ∨
        (∃ m ∈ group, Requests m) ∧ ((∃ err, result = .error err) ∨
          ∃ reply, reply ≠ [] ∧ result = .ok (reply, group.flatMap (connection.sessionOf ring)))) := by
  induction group with
  | nil => exact ⟨_, rfl, .inl ⟨by simp, rfl⟩⟩
  | cons m group ih =>
      have hm := hformed m (List.mem_cons_self ..)
      by_cases hnil : group = []
      · -- The last message, whatever it is.
        subst hnil
        rcases postHandshakeMessage_wellFormed lawful connection hm with
          ⟨htyp, hmessage⟩ | ⟨htyp, hbody, hmessage⟩ | ⟨hrequests, result, hmessage, hresult⟩
        · have hafter : connection.afterGroup lawful [m] = connection := by
            simp [afterGroup, endsUpdate, sendingAfter, htyp]
            rfl
          rw [postHandshakeLoop_ok hmessage, hafter]
          refine ⟨_, rfl, .inl ⟨?_, by simp [postHandshakeLoop]⟩⟩
          simp [Requests, htyp]
        · rw [postHandshakeLoop_ok hmessage]
          refine ⟨_, rfl, .inl ⟨?_, by simp [postHandshakeLoop, sessionOf, htyp]⟩⟩
          simp [Requests, hbody]
        · rcases hresult with ⟨err, rfl⟩ | ⟨reply, hreply, rfl⟩
          · rw [postHandshakeLoop_error hmessage]
            exact ⟨_, rfl, .inr ⟨⟨m, by simp, hrequests⟩, .inl ⟨err, rfl⟩⟩⟩
          · rw [postHandshakeLoop_ok hmessage]
            refine ⟨_, rfl, .inr ⟨⟨m, by simp, hrequests⟩, .inr ⟨reply, hreply, ?_⟩⟩⟩
            simp [postHandshakeLoop, sessionOf, hrequests.1]
      · -- Not the last, so a ticket.
        have htyp : m.typ ≠ .keyUpdate := by
          refine hlast m ?_
          rw [List.dropLast_cons_of_ne_nil hnil]
          exact List.mem_cons_self ..
        have hrequests : ¬ Requests m := fun h => htyp h.1
        rcases postHandshakeMessage_wellFormed lawful connection hm with
          ⟨hticket, hmessage⟩ | ⟨hupdate, -⟩ | ⟨h, -⟩
        · obtain ⟨result, hloop, hresult⟩ := ih
            (fun m' hm' => hformed m' (List.mem_cons_of_mem _ hm'))
            (fun m' hm' => hlast m' (by
              rw [List.dropLast_cons_of_ne_nil hnil]
              exact List.mem_cons_of_mem _ hm'))
          rw [postHandshakeLoop_ok hmessage, hloop, afterGroup_ticket lawful connection hnil hticket]
          refine ⟨_, rfl, ?_⟩
          have hexists : (∃ m' ∈ m :: group, Requests m') ↔ ∃ m' ∈ group, Requests m' := by
            simp [hrequests]
          rw [hexists]
          rcases hresult with ⟨hnone, rfl⟩ | ⟨hsome, ⟨err, rfl⟩ | ⟨reply, hreply, rfl⟩⟩
          · exact .inl ⟨hnone, by simp⟩
          · exact .inr ⟨hsome, .inl ⟨err, rfl⟩⟩
          · exact .inr ⟨hsome, .inr ⟨reply, hreply, by simp⟩⟩
        · exact absurd hupdate htyp
        · exact absurd h hrequests

/-- A group that asks for an answer. -/
def asks (group : List Message) : Bool := group.any fun m => m.typ = .keyUpdate ∧ m.body = [0x01]

theorem asks_iff {group : List Message} : asks group = true ↔ ∃ m ∈ group, Requests m := by
  simp [asks, Requests]

/-- The sessions that come of a group. -/
def groupSessions (ring : Ring) (connection : Connection) (group : List Message) : List Session :=
  if asks group then [] else group.flatMap (connection.sessionOf ring)

/-- A group that is refused: it asks for an answer and has a ticket that gives a session. -/
def mixed (connection : Connection) (group : List Message) : Bool :=
  asks group && connection.resumptionMaster ≠ [] && group.any (fun m => m.typ = .newSessionTicket)

theorem sessionOf_requests {connection : Connection} {m : Message} (h : Requests m) :
    connection.sessionOf ring m = [] := by
  simp [sessionOf, h.1]

/-- The tickets of a group that asks for an answer give no session unless it is refused. -/
theorem groupSessions_eq {connection : Connection} {group : List Message}
    (hformed : ∀ m ∈ group, connection.WellFormed ring m) :
    connection.groupSessions ring group
      = if connection.mixed group then [] else group.flatMap (connection.sessionOf ring) := by
  rw [groupSessions]
  cases hasks : asks group with
  | false => simp [mixed, hasks]
  | true =>
      have hall : ∀ m ∈ group, connection.Accepts ring m := by
        intro m hm
        rcases (hformed m hm).2 with ⟨htyp, -⟩ | ⟨htyp, hsession⟩
        · exact .inl htyp
        · exact .inr ⟨htyp, .inr hsession⟩
      cases hmixed : connection.mixed group with
      | true => simp
      | false =>
          have hnone : connection.resumptionMaster = [] ∨
              ∀ m ∈ group, m.typ ≠ .newSessionTicket := by
            by_cases hmaster : connection.resumptionMaster = []
            · exact .inl hmaster
            · exact .inr (by simpa [mixed, hasks, hmaster] using hmixed)
          simpa using ((flatMap_sessionOf_eq_nil hall).mpr hnone).symm

theorem flatMap_ne_nil_of_mixed {connection : Connection} {group : List Message}
    (hformed : ∀ m ∈ group, connection.WellFormed ring m)
    (h : connection.mixed group = true) :
    asks group = true ∧ group.flatMap (connection.sessionOf ring) ≠ [] := by
  simp only [mixed, Bool.and_eq_true, decide_eq_true_eq, List.any_eq_true] at h
  obtain ⟨⟨hasks, hmaster⟩, m, hm, htyp⟩ := h
  refine ⟨hasks, ?_⟩
  intro hnil
  have hnone := List.flatMap_eq_nil_iff.mp hnil m hm
  rcases (hformed m hm).2 with ⟨hupdate, -⟩ | ⟨-, session, hsession⟩
  · rw [htyp] at hupdate
    cases hupdate
  · simp [sessionOf, htyp, hmaster, hsession] at hnone

include lawful in
theorem emit_keeps {before after : Direction} {typ : ContentType} {fragment record : Bytes}
    {updates : Bool} (htyp : typ.asU8 ≠ 0)
    (h : before.emit ring typ fragment updates = some (record, after)) :
    after.aead = before.aead ∧ after.hash = before.hash := by
  obtain ⟨sealer, -, -, rfl⟩ := Direction.openRecord_of_emit lawful htyp h
  cases updates <;> exact ⟨rfl, rfl⟩

include lawful in
theorem sendingAfter_keeps (sending : Direction) (ms : List Message) :
    (sendingAfter ring sending ms).aead = sending.aead ∧
      (sendingAfter ring sending ms).hash = sending.hash := by
  induction ms generalizing sending with
  | nil => exact ⟨rfl, rfl⟩
  | cons m ms ih =>
      rw [sendingAfter, List.foldl_cons, ← sendingAfter]
      split
      · cases hanswer : sending.answer ring with
        | none => exact ih sending
        | some out =>
            obtain ⟨record, moved⟩ := out
            obtain ⟨rfl, -⟩ := Direction.answer_next lawful hanswer
            exact ih (sending.next lawful)
      · exact ih sending

include lawful in
/-- A record of one group. -/
theorem read_group (connection : Connection) {group : List Message} {record : Bytes}
    {direction : Direction} (hformed : ∀ m ∈ group, connection.WellFormed ring m)
    (hlast : ∀ m ∈ group.dropLast, m.typ ≠ .keyUpdate)
    (hemit : connection.receiving.emit ring .handshake (octets group) (endsUpdate group)
      = some (record, direction)) :
    ∃ result, connection.read ring record = (result,
        (connection.withReceiving direction).withSending
          (sendingAfter ring connection.sending group)) ∧
      sessionsOf result = connection.groupSessions ring group ∧
      (connection.mixed group = true → ∃ err, result = .error err) := by
  have hmixed : connection.mixed group = true → asks group = true ∧
      group.flatMap (connection.sessionOf ring) ≠ [] := flatMap_ne_nil_of_mixed hformed
  obtain ⟨sealer, hopen, -, rfl⟩ := Direction.openRecord_of_emit lawful (by decide) hemit
  have hopen' : connection.opener.openRecord ring record
      = (.ok ⟨.handshake, octets group⟩, ⟨sealer.key, sealer.seq⟩) := hopen
  have hwhole : wholeMessages (octets group) = group := by
    have hsplit := (@split_framed group (fun m hm => (hformed m hm).1) [] rfl).2.1
    simpa [octets] using hsplit
  obtain ⟨result, hloop, hresult⟩ := postHandshakeLoop_group lawful
    { connection with opener := ⟨sealer.key, sealer.seq⟩ } hformed hlast
  have hafter : afterGroup lawful { connection with opener := ⟨sealer.key, sealer.seq⟩ } group
      = (connection.withReceiving (if endsUpdate group then connection.receiving.next lawful
        else { connection.receiving with sealer })).withSending
          (sendingAfter ring connection.sending group) := by
    rw [afterGroup]
    cases endsUpdate group <;> rfl
  rw [read_handshake hopen', postHandshake_eq, hwhole, hloop, hafter]
  refine ⟨_, rfl, ?_⟩
  rw [groupSessions]
  rcases hresult with ⟨hnone, rfl⟩ | ⟨hsome, ⟨err, rfl⟩ | ⟨reply, hreply, rfl⟩⟩
  · rw [← asks_iff] at hnone
    simp only [hnone, ok_bind]
    refine ⟨?_, fun h => absurd (hmixed h).1 hnone⟩
    show sessionsOf (postHandshakeResult [] (group.flatMap (connection.sessionOf ring))) = _
    cases group.flatMap (connection.sessionOf ring) <;> rfl
  · rw [← asks_iff] at hsome
    simp only [hsome]
    exact ⟨rfl, fun _ => ⟨err, rfl⟩⟩
  · rw [← asks_iff] at hsome
    simp only [hsome, ok_bind]
    show sessionsOf (postHandshakeResult reply (group.flatMap (connection.sessionOf ring))) = _ ∧
      (_ → ∃ err, postHandshakeResult reply (group.flatMap (connection.sessionOf ring))
        = .error err)
    refine ⟨?_, fun h => ?_⟩
    · cases group.flatMap (connection.sessionOf ring) <;>
        simp [postHandshakeResult, hreply, sessionsOf]
    · exact ⟨_, by rw [postHandshakeResult, if_pos (hmixed h).2, if_pos hreply]⟩

end Group

/-! ### A series of groups -/

section Groups

variable {ring : Ring} (lawful : ring.Lawful)

include lawful in
/-- The records of a series of groups. -/
theorem readAll_group (groups : List (List Message)) :
    ∀ (connection : Connection) {records : List Bytes} {direction : Direction},
      (∀ group ∈ groups, ∀ m ∈ group, connection.WellFormed ring m) →
      (∀ group ∈ groups, ∀ m ∈ group.dropLast, m.typ ≠ .keyUpdate) →
      connection.receiving.emitAll ring (fragmentsOf groups) = some (records, direction) →
      ∃ results, connection.readAll ring records = (results,
          (connection.withReceiving direction).withSending
            (sendingAfter ring connection.sending groups.flatten)) ∧
        results.flatMap sessionsOf = groups.flatMap (connection.groupSessions ring) ∧
        List.Forall₂ (fun group result => connection.mixed group = true →
          ∃ err, result = .error err) groups results := by
  induction groups with
  | nil =>
      intro connection records direction _ _ hemit
      obtain ⟨rfl, rfl⟩ : [] = records ∧ connection.receiving = direction := by
        simpa [fragmentsOf, Direction.emitAll] using hemit
      exact ⟨[], rfl, rfl, .nil⟩
  | cons group groups ih =>
      intro connection records direction hformed hlast hemit
      simp only [fragmentsOf, List.map_cons, Direction.emitAll, Option.bind_eq_bind,
        Option.bind_eq_some_iff, Prod.exists] at hemit
      obtain ⟨record, moved, hone, rest, direction', hrest, heq⟩ := hemit
      obtain ⟨rfl, rfl⟩ : record :: rest = records ∧ direction' = direction := by simpa using heq
      obtain ⟨result, hread, hsessions, hrefused⟩ := read_group lawful connection
        (hformed group (List.mem_cons_self ..)) (hlast group (List.mem_cons_self ..)) hone
      -- The next record is read by a connection that differs in its directions only.
      obtain ⟨next, hnext⟩ : ∃ next, next = (connection.withReceiving moved).withSending
          (sendingAfter ring connection.sending group) := ⟨_, rfl⟩
      have hreceiving : next.receiving = moved := by
        obtain ⟨haead, hhash⟩ := emit_keeps lawful (by decide) hone
        obtain ⟨aead, hash, secret, sealer⟩ := moved
        obtain rfl : aead = connection.aead := haead
        obtain rfl : hash = connection.hash := hhash
        rw [hnext]
        rfl
      have hsending : next.sending = sendingAfter ring connection.sending group := by
        obtain ⟨haead, hhash⟩ := sendingAfter_keeps lawful connection.sending group
        rw [hnext]
        generalize sendingAfter ring connection.sending group = sent at haead hhash
        obtain ⟨aead, hash, secret, sealer⟩ := sent
        obtain rfl : aead = connection.aead := haead
        obtain rfl : hash = connection.hash := hhash
        rfl
      have hsame : next.mixed = connection.mixed ∧
          next.groupSessions ring = connection.groupSessions ring ∧
          next.WellFormed ring = connection.WellFormed ring := by
        subst hnext
        exact ⟨rfl, rfl, rfl⟩
      rw [← hreceiving] at hrest
      obtain ⟨results, hreads, hall, hrefusals⟩ := ih next
        (fun group' hgroup' m hm => by
          rw [hsame.2.2]
          exact hformed group' (List.mem_cons_of_mem _ hgroup') m hm)
        (fun group' hgroup' => hlast group' (List.mem_cons_of_mem _ hgroup')) hrest
      refine ⟨result :: results, ?_, ?_, ?_⟩
      · have happend : sendingAfter ring connection.sending (group :: groups).flatten
            = sendingAfter ring (sendingAfter ring connection.sending group) groups.flatten := by
          simp [sendingAfter]
        simp only [readAll, hread, ← hnext, hreads, hsending, happend]
        rw [hnext]
        rfl
      · rw [List.flatMap_cons, List.flatMap_cons, hsessions, hall, hsame.2.1]
      · rw [hsame.1] at hrefusals
        exact .cons hrefused hrefusals

/-- An update that can only be the last of its group is there or not. -/
theorem countP_group {group : List Message} (hlast : ∀ m ∈ group.dropLast, m.typ ≠ .keyUpdate) :
    group.countP (fun m => m.typ = .keyUpdate) = if endsUpdate group then 1 else 0 := by
  rcases List.eq_nil_or_concat group with rfl | ⟨front, last, rfl⟩
  · rfl
  · rw [List.concat_eq_append, List.dropLast_concat] at hlast
    have hfront : front.countP (fun m => m.typ = .keyUpdate) = 0 := by
      rw [List.countP_eq_zero]
      simpa using hlast
    rw [List.concat_eq_append, List.countP_append, hfront]
    simp [endsUpdate, List.countP_cons]

include lawful in
/-- The secret moves once for each update. -/
theorem emitAll_secret (groups : List (List Message)) :
    ∀ {before after : Direction} {records : List Bytes},
      (∀ group ∈ groups, ∀ m ∈ group.dropLast, m.typ ≠ .keyUpdate) →
      before.emitAll ring (fragmentsOf groups) = some (records, after) →
      after.secret = (updateTrafficSecret ring before.hash)^[groups.flatten.countP
        (fun m => m.typ = .keyUpdate)] before.secret := by
  induction groups with
  | nil =>
      intro before after records _ hemit
      obtain ⟨-, rfl⟩ : [] = records ∧ before = after := by
        simpa [fragmentsOf, Direction.emitAll] using hemit
      rfl
  | cons group groups ih =>
      intro before after records hlast hemit
      simp only [fragmentsOf, List.map_cons, Direction.emitAll, Option.bind_eq_bind,
        Option.bind_eq_some_iff, Prod.exists] at hemit
      obtain ⟨record, moved, hone, rest, after', hrest, heq⟩ := hemit
      obtain ⟨-, rfl⟩ : record :: rest = records ∧ after' = after := by simpa using heq
      have htail := ih (fun group' hgroup' => hlast group' (List.mem_cons_of_mem _ hgroup')) hrest
      obtain ⟨sealer, -, -, rfl⟩ := Direction.openRecord_of_emit lawful (by decide) hone
      rw [List.flatten_cons, List.countP_append, countP_group (hlast group (List.mem_cons_self ..)),
        Nat.add_comm, Function.iterate_add_apply]
      cases hends : endsUpdate group with
      | true =>
          rw [hends] at htail
          simpa using htail
      | false =>
          rw [hends] at htail
          simpa using htail

theorem flatMap_groupSessions {connection : Connection} (groups : List (List Message))
    (hformed : ∀ group ∈ groups, ∀ m ∈ group, connection.WellFormed ring m) :
    groups.flatMap (connection.groupSessions ring)
      = (groups.filter fun group => !connection.mixed group).flatten.flatMap
        (connection.sessionOf ring) := by
  induction groups with
  | nil => rfl
  | cons group groups ih =>
      have hhead := groupSessions_eq (hformed group (List.mem_cons_self ..))
      have htail := ih fun group' hgroup' => hformed group' (List.mem_cons_of_mem _ hgroup')
      rw [List.flatMap_cons, hhead, htail]
      cases hmixed : connection.mixed group <;> simp [hmixed]

/-- A message that asks for an answer is not a ticket. -/
theorem flatMap_groupSessions_singles {connection : Connection} (ms : List Message) :
    (ms.map fun m => [m]).flatMap (connection.groupSessions ring)
      = ms.flatMap (connection.sessionOf ring) := by
  rw [List.flatMap_map]
  refine List.flatMap_congr fun m _ => ?_
  cases hasks : asks [m] with
  | false => simp [groupSessions, hasks]
  | true =>
      obtain ⟨m', hm', hrequests⟩ := asks_iff.mp hasks
      obtain rfl := List.mem_singleton.mp hm'
      simp [groupSessions, hasks, sessionOf_requests hrequests]

end Groups

/-- Regrouping messages. However a peer groups its messages, each update the last of its record,
the secrets come out as with one message a record, and so do the sessions if no record is
mixed. A mixed record is refused, and only its sessions are lost. -/
theorem readAll_regroup {ring : Ring} (lawful : ring.Lawful) (connection : Connection)
    (groups : List (List Message)) {records singles : List Bytes} {direction direction' : Direction}
    (hformed : ∀ group ∈ groups, ∀ m ∈ group, connection.WellFormed ring m)
    (hlast : ∀ group ∈ groups, ∀ m ∈ group.dropLast, m.typ ≠ .keyUpdate)
    (hgroups : connection.receiving.emitAll ring (fragmentsOf groups) = some (records, direction))
    (hsingles : connection.receiving.emitAll ring
      (fragmentsOf (groups.flatten.map fun m => [m])) = some (singles, direction')) :
    let grouped := connection.readAll ring records
    let single := connection.readAll ring singles
    grouped.2.clientSecret = single.2.clientSecret ∧ grouped.2.sealer = single.2.sealer ∧
    grouped.2.serverSecret = single.2.serverSecret ∧
    ((∀ group ∈ groups, connection.mixed group = false) →
      grouped.1.flatMap sessionsOf = single.1.flatMap sessionsOf) ∧
    single.1.flatMap sessionsOf = groups.flatten.flatMap (connection.sessionOf ring) ∧
    grouped.1.flatMap sessionsOf = (groups.filter fun group => !connection.mixed group).flatten.flatMap
      (connection.sessionOf ring) ∧
    List.Forall₂ (fun group result => connection.mixed group = true → ∃ err, result = .error err)
      groups grouped.1 := by
  have hmem : ∀ group ∈ groups.flatten.map (fun m => [m]), ∃ m, group = [m] ∧
      connection.WellFormed ring m := by
    intro group hgroup
    obtain ⟨m, hm, rfl⟩ := List.mem_map.mp hgroup
    obtain ⟨group', hgroup', hm'⟩ := List.mem_flatten.mp hm
    exact ⟨m, rfl, hformed group' hgroup' m hm'⟩
  have hformed' : ∀ group ∈ groups.flatten.map (fun m => [m]), ∀ m ∈ group,
      connection.WellFormed ring m := by
    intro group hgroup m hm
    obtain ⟨m', rfl, hm'⟩ := hmem group hgroup
    rw [List.mem_singleton] at hm
    exact hm ▸ hm'
  have hlast' : ∀ group ∈ groups.flatten.map (fun m => [m]), ∀ m ∈ group.dropLast,
      m.typ ≠ .keyUpdate := by
    intro group hgroup m hm
    obtain ⟨m', rfl, -⟩ := hmem group hgroup
    simp at hm
  have hflatten : (groups.flatten.map fun m => [m]).flatten = groups.flatten := by
    rw [← List.flatMap_def, List.flatMap_singleton']
  obtain ⟨results, hreads, hsessions, hrefused⟩ :=
    readAll_group lawful groups connection hformed hlast hgroups
  obtain ⟨results', hreads', hsessions', -⟩ :=
    readAll_group lawful _ connection hformed' hlast' hsingles
  have hsecret := emitAll_secret lawful groups hlast hgroups
  have hsecret' := emitAll_secret lawful _ hlast' hsingles
  rw [hflatten] at hsecret' hreads'
  have hsingle := hsessions'.trans (flatMap_groupSessions_singles groups.flatten)
  have hgrouped := hsessions.trans (flatMap_groupSessions groups hformed)
  simp only [hreads, hreads']
  refine ⟨rfl, rfl, hsecret.trans hsecret'.symm, ?_, hsingle, hgrouped, hrefused⟩
  intro hnone
  rw [hgrouped, hsingle, List.filter_eq_self.mpr (by simpa using hnone)]

/-- A ticket and an update that asks for an answer, for running the model. -/
def sampleTicket : Message :=
  .of .newSessionTicket [0, 0, 0, 60, 0, 0, 0, 1, 1, 0, 0, 2, 9, 9, 0, 0]

def sampleUpdate (requested : Bool) : Message :=
  .of .keyUpdate [if requested then 0x01 else 0x00]

theorem sampleTicket_wellFormed : (sample [7]).WellFormed Ring.sample sampleTicket := by
  exact ⟨Content.ticket_framed (by decide), .inr ⟨rfl, toOption_isSome.mp (by decide +kernel)⟩⟩

theorem sampleUpdate_wellFormed (requested : Bool) :
    (sample [7]).WellFormed Ring.sample (sampleUpdate requested) := by
  refine ⟨Content.update_framed requested, .inl ⟨rfl, ?_⟩⟩
  cases requested
  · exact .inl rfl
  · exact .inr rfl

/-- Two tickets and an update in a record, another update in the next: the same sessions as in
four records. -/
theorem readAll_regroup_sample :
    ∃ records singles direction direction',
      (sample [7]).receiving.emitAll Ring.sample (fragmentsOf
        [[sampleTicket, sampleTicket, sampleUpdate false], [sampleUpdate true]])
          = some (records, direction) ∧
      (sample [7]).receiving.emitAll Ring.sample (fragmentsOf
        [[sampleTicket], [sampleTicket], [sampleUpdate false], [sampleUpdate true]])
          = some (singles, direction') ∧
      ((sample [7]).readAll Ring.sample records).1.flatMap sessionsOf
        = ((sample [7]).readAll Ring.sample singles).1.flatMap sessionsOf := by
  obtain ⟨⟨records, direction⟩, hgroups⟩ := Option.isSome_iff_exists.mp
    (show ((sample [7]).receiving.emitAll Ring.sample (fragmentsOf
      [[sampleTicket, sampleTicket, sampleUpdate false], [sampleUpdate true]])).isSome = true by
        decide +kernel)
  obtain ⟨⟨singles, direction'⟩, hsingles⟩ := Option.isSome_iff_exists.mp
    (show ((sample [7]).receiving.emitAll Ring.sample (fragmentsOf
      [[sampleTicket], [sampleTicket], [sampleUpdate false], [sampleUpdate true]])).isSome = true by
        decide +kernel)
  refine ⟨records, singles, direction, direction', hgroups, hsingles, ?_⟩
  obtain ⟨-, -, -, hsame, -⟩ := readAll_regroup Ring.sample_lawful (sample [7])
    [[sampleTicket, sampleTicket, sampleUpdate false], [sampleUpdate true]]
    (by simp [sampleTicket_wellFormed, sampleUpdate_wellFormed]) (by decide) hgroups hsingles
  exact hsame (by decide)

/-- What a connection reads when these fragments are sent to it. -/
def readSent (ring : Ring) (connection : Connection) (fragments : List (Bytes × Bool)) :
    List (Except ClientError Incoming) :=
  match connection.receiving.emitAll ring fragments with
  | some (records, _) => (connection.readAll ring records).1
  | none => []

/-- A ticket gives a session in a record of its own, none in a record with an update that asks
for an answer, and none when its octets are in two records. -/
theorem readAll_regroup_lost :
    (((sample [7]).readSent Ring.sample
      (fragmentsOf [[sampleTicket], [sampleUpdate true]])).flatMap sessionsOf).length = 1 ∧
    (sample [7]).readSent Ring.sample (fragmentsOf [[sampleTicket, sampleUpdate true]])
      = [.error (.unexpectedMessage "NewSessionTickets alone" .keyUpdate)] ∧
    (sample [7]).readSent Ring.sample
      [(sampleTicket.encoded.take 6, false), (sampleTicket.encoded.drop 6, false)]
      = [.ok .handled, .ok .handled] := by
  decide +kernel

end Connection

end RustyTls
