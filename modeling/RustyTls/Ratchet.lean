import RustyTls.Core.Walk
import RustyTls.HandshakeCodec
import RustyTls.PostHandshake

/-!
# RustyTls.Ratchet

A connection and a peer that change keys while records are in flight.

A `Link` is the two ends and the two queues between them. The peer is the protocol's, not this
repository's: it sends application data or one post-handshake message a record, and moves a
direction on after each KeyUpdate that passes in it. `step` lets either end send or receive, in
any order.

The ends are seldom on the same key: updates are in flight both ways, and an answer waits behind
what was written before it. What stays true is `InStep`: the receiving end of a direction,
walked through the records in flight, is where the sending end already is.
-/

namespace RustyTls

open Core

/-! ### What a record carries -/

/-- What a record carries after the handshake. -/
inductive Content
  | application (data : Bytes)
  | ticket (body : Bytes)
  | update (requested : Bool)
  deriving Repr, DecidableEq

namespace Content

def typ : Content → ContentType
  | .application _ => .applicationData
  | .ticket _ | .update _ => .handshake

def fragment : Content → Bytes
  | .application data => data
  | .ticket body => Message.encode .newSessionTicket body
  | .update requested => Message.encode .keyUpdate [if requested then 0x01 else 0x00]

def updates : Content → Bool
  | .update _ => true
  | _ => false

/-- The application data of a record. -/
def data : Content → List Bytes
  | .application data => [data]
  | _ => []

theorem ticket_fragment (body : Bytes) :
    (ticket body).fragment = (Message.of .newSessionTicket body).encoded := rfl

theorem update_fragment (requested : Bool) : (update requested).fragment
    = (Message.of .keyUpdate [if requested then 0x01 else 0x00]).encoded := rfl

/-- The message of a ticket. -/
theorem ticket_framed {body : Bytes} (h : (Content.ticket body).fragment.length ≤ maxFragmentLen) :
    Framed (Message.of .newSessionTicket body) := by
  obtain ⟨hmax, -⟩ := limits
  simp only [fragment, Message.encode_eq, prefixed, List.length_cons, List.length_append] at h
  exact Message.of_framed (by rw [HandshakeType.Known]; decide) (by omega)

/-- The message of an update. -/
theorem update_framed (requested : Bool) :
    Framed (Message.of .keyUpdate [if requested then 0x01 else 0x00]) :=
  Message.of_framed (by rw [HandshakeType.Known]; decide) (by simp)

end Content

/-- Send a record with this content. -/
def Direction.sends (ring : Ring) (direction : Direction) (content : Content) :
    Option (Bytes × Direction) :=
  direction.emit ring content.typ content.fragment content.updates

/-- `sends`, as the label of a step. -/
def Direction.Carries (ring : Ring) (before : Direction) (sent : Content × Bytes)
    (after : Direction) : Prop :=
  before.sends ring sent.1 = some (sent.2, after)

/-- The opener of a direction. -/
def Direction.opener (direction : Direction) : Opener :=
  ⟨direction.sealer.key, direction.sealer.seq⟩

namespace Direction

variable {ring : Ring} (lawful : ring.Lawful)

/-- What is sent opens at the other end, to what was sent. -/
theorem openRecord_of_emit {direction after : Direction} {typ : ContentType}
    {fragment record : Bytes} {updates : Bool} (htyp : typ.asU8 ≠ 0)
    (h : direction.emit ring typ fragment updates = some (record, after)) :
    ∃ sealer, direction.opener.openRecord ring record
        = (.ok ⟨.fromU8 typ.asU8, fragment⟩, ⟨sealer.key, sealer.seq⟩) ∧
      fragment.length ≤ maxFragmentLen ∧
      after = if updates then direction.next lawful else { direction with sealer } := by
  rw [emit] at h
  split at h
  · cases h
  · next record' sealer hseal =>
      obtain ⟨seq, sealed, hpeek, hfragment, hinner, hsealed, rfl, rfl⟩ := sealRecord_ok hseal
      have hafter : additionalData (fragment.length + 1 + 0 + tagLen) ++ sealed = record ∧
          after = if updates then direction.next lawful else
            { direction with sealer := { direction.sealer with seq := .advance seq } } := by
        cases updates with
        | true =>
            rw [if_pos rfl, ratchet_eq lawful, Option.map_some] at h
            obtain ⟨hrecord, rfl⟩ := Prod.mk.inj (Option.some.inj h)
            exact ⟨hrecord, rfl⟩
        | false =>
            obtain ⟨hrecord, rfl⟩ := Prod.mk.inj (Option.some.inj h)
            exact ⟨hrecord, rfl⟩
      obtain ⟨rfl, rfl⟩ := hafter
      have hlen := lawful.seal_length _ _ _ _ _ _ hsealed
      simp only [Sealer.innerPlaintext, List.length_append, List.length_singleton,
        List.length_replicate] at hlen
      obtain ⟨hmax, hmaxEnc, hmaxInner, htag, -⟩ := limits
      refine ⟨{ direction.sealer with seq := .advance seq }, ?_, hfragment, rfl⟩
      exact openRecord_of_openInPlace (by omega) (by omega) (by omega) hpeek
        (lawful.open_seal _ _ _ _ _ _ hsealed) (innerContent_innerPlaintext htyp fragment 0)
        hfragment

end Direction

/-! ### What a read does to a record of the peer -/

namespace Connection

/-- The data a read returns. -/
def dataOf : Except ClientError Incoming → List Bytes
  | .ok (.application data) => [data]
  | _ => []

/-- The records a read asks its caller to send. -/
def repliesOf : Except ClientError Incoming → List Bytes
  | .ok (.reply reply) => [reply]
  | _ => []

/-- A fragment of one message. -/
theorem postHandshake_single (ring : Ring) (connection : Connection) {m : Message} (h : Framed m) :
    connection.postHandshake ring m.encoded =
      ((connection.postHandshakeMessage ring m).1 >>= fun out => postHandshakeResult out.1 out.2,
        (connection.postHandshakeMessage ring m).2) := by
  rw [postHandshake_eq, wholeMessages_single h]
  cases hmessage : connection.postHandshakeMessage ring m with
  | mk result after =>
      cases result with
      | error err => rw [postHandshakeLoop_error hmessage]
      | ok out =>
          rw [postHandshakeLoop_ok hmessage]
          simp [postHandshakeLoop]

variable {ring : Ring} {connection : Connection} {after : Direction} {record : Bytes}

/-- What a record of the peer comes to: its data, and what becomes of the sending direction. -/
structure Follows (ring : Ring) (before : Direction) (content : Content)
    (result : Except ClientError Incoming) (after : Direction) : Prop where
  data : dataOf result = content.data
  sending : (repliesOf result = [] ∧ after = before) ∨
    ∃ reply, repliesOf result = [reply] ∧ before.Carries ring (.update false, reply) after

/-- A ticket moves nothing. -/
theorem follows_ticket (lawful : ring.Lawful) (connection : Connection) {body : Bytes}
    (hlen : (Content.ticket body).fragment.length ≤ maxFragmentLen) :
    let outcome := connection.postHandshake ring (Content.ticket body).fragment
    outcome.2 = connection ∧
      Follows ring connection.sending (.ticket body) outcome.1 outcome.2.sending := by
  have hsingle := postHandshake_single ring connection (Content.ticket_framed hlen)
  have hrequests : ¬ Requests (Message.of .newSessionTicket body) := by
    intro h
    obtain ⟨htyp, -⟩ := h
    cases htyp
  simp only [Content.ticket_fragment, hsingle]
  rcases postHandshakeMessage_eq lawful connection (Message.of .newSessionTicket body) with
    ⟨-, err, hmessage⟩ | ⟨-, -, hmessage⟩ | ⟨htyp, -⟩ | ⟨h, -⟩ | ⟨h, -⟩
  · rw [hmessage]
    exact ⟨rfl, rfl, .inl ⟨rfl, rfl⟩⟩
  · rw [hmessage]
    generalize connection.sessionOf ring (Message.of .newSessionTicket body) = sessions
    cases sessions with
    | nil => exact ⟨rfl, rfl, .inl ⟨rfl, rfl⟩⟩
    | cons session rest => exact ⟨rfl, rfl, .inl ⟨rfl, rfl⟩⟩
  · cases htyp
  · exact absurd h hrequests
  · exact absurd h hrequests

/-- An update moves the receiving direction, and is answered if it asks for it. -/
theorem follows_update (lawful : ring.Lawful) (connection : Connection) (requested : Bool) :
    let outcome := connection.postHandshake ring (Content.update requested).fragment
    outcome.2.receiving = connection.receiving.next lawful ∧
      Follows ring connection.sending (.update requested) outcome.1 outcome.2.sending := by
  have hsingle := postHandshake_single ring connection (Content.update_framed requested)
  simp only [Content.update_fragment, hsingle]
  rcases postHandshakeMessage_eq lawful connection
      (Message.of .keyUpdate [if requested then 0x01 else 0x00]) with
    ⟨hrefused, -⟩ | ⟨htyp, -⟩ | ⟨-, -, hmessage⟩ | ⟨-, reply, hanswer, hmessage⟩ |
    ⟨-, -, err, hmessage⟩
  · exact absurd (.inl rfl) hrefused
  · cases htyp
  · rw [hmessage]
    exact ⟨rfl, rfl, .inl ⟨rfl, rfl⟩⟩
  · rw [hmessage]
    obtain ⟨-, hreply⟩ := Direction.answer_next lawful hanswer
    have hresult : postHandshakeResult reply [] = .ok (.reply reply) := by
      simp [postHandshakeResult, hreply]
    simp only [ok_bind, hresult]
    exact ⟨rfl, rfl, .inr ⟨reply, rfl, hanswer⟩⟩
  · rw [hmessage]
    exact ⟨rfl, rfl, .inl ⟨rfl, rfl⟩⟩

/-- A record of the peer opens, and the receiving direction follows the peer's. -/
theorem read_of_carries (lawful : ring.Lawful) {content : Content}
    (h : connection.receiving.Carries ring (content, record) after) :
    (∃ opened opener, connection.opener.openRecord ring record = (.ok opened, opener)) ∧
      (connection.read ring record).2.receiving = after ∧
      Follows ring connection.sending content (connection.read ring record).1
        (connection.read ring record).2.sending := by
  have htyp : content.typ.asU8 ≠ 0 := by cases content <;> simp [Content.typ, ContentType.asU8]
  obtain ⟨sealer, hopen, hlen, hafter⟩ := Direction.openRecord_of_emit lawful htyp h
  have hopen' : connection.opener.openRecord ring record
      = (.ok ⟨.fromU8 content.typ.asU8, content.fragment⟩, ⟨sealer.key, sealer.seq⟩) := hopen
  refine ⟨⟨_, _, hopen'⟩, ?_⟩
  subst hafter
  cases content with
  | application data =>
      have hread : connection.read ring record = (.ok (.application data),
          { connection with opener := ⟨sealer.key, sealer.seq⟩ }) := by
        rw [read, if_neg (head_of_openRecord hopen'), hopen']
        rfl
      rw [hread]
      exact ⟨rfl, rfl, .inl ⟨rfl, rfl⟩⟩
  | ticket body =>
      rw [read_handshake hopen']
      obtain ⟨hsame, hfollows⟩ := follows_ticket lawful
        { connection with opener := ⟨sealer.key, sealer.seq⟩ } hlen
      refine ⟨?_, hfollows⟩
      show (postHandshake ring _ (Content.ticket body).fragment).2.receiving = _
      rw [hsame]
      rfl
  | update requested =>
      rw [read_handshake hopen']
      exact follows_update lawful { connection with opener := ⟨sealer.key, sealer.seq⟩ } requested

/-- A write sends application data, or nothing. -/
theorem write_carries (ring : Ring) (connection : Connection) (data : Bytes) :
    (∃ record after, connection.write ring data = (.ok record, after) ∧
      after.receiving = connection.receiving ∧
      connection.sending.Carries ring (.application data, record) after.sending) ∨
    ∃ err, connection.write ring data = (.error err, connection) := by
  cases hseal : connection.sealer.sealRecord ring .applicationData data 0 with
  | mk result sealer =>
      cases result with
      | ok record =>
          refine .inl ⟨record, { connection with sealer }, by simp [write, hseal], rfl, ?_⟩
          simp [Direction.Carries, Direction.sends, Direction.emit, Content.typ, Content.fragment,
            Content.updates, sending, hseal]
      | error err =>
          obtain rfl := sealRecord_error hseal
          exact .inr ⟨.record err, by simp [write, hseal]⟩

end Connection

/-! ### The peer -/

/-- The protocol's other end. -/
structure Peer where
  sending : Direction
  receiving : Direction
  deriving Repr, DecidableEq

/-- What the peer makes of a record: it opens it, and moves on once for each update in it. -/
def Peer.receive (ring : Ring) (peer : Peer) (record : Bytes) :
    Except RecordError Opened × Peer :=
  match peer.receiving.opener.openRecord ring record with
  | (.error err, _) => (.error err, peer)
  | (.ok opened, opener) =>
      let opened' := { peer.receiving with sealer := ⟨opener.key, opener.seq⟩ }
      let updates := if opened.typ = .handshake then
          (wholeMessages opened.fragment).filter (fun m => m.typ = .keyUpdate)
        else
          []
      let receiving := updates.foldl (fun d _ => (d.ratchet ring).getD d) opened'
      (.ok opened, { peer with receiving })

/-- What the connection sends opens at the peer, whose receiving direction follows. -/
theorem Peer.receive_of_carries {ring : Ring} (lawful : ring.Lawful) {peer : Peer}
    {content : Content} {record : Bytes} {after : Direction}
    (h : peer.receiving.Carries ring (content, record) after) :
    peer.receive ring record
      = (.ok ⟨content.typ, content.fragment⟩, { peer with receiving := after }) := by
  have htyp : content.typ.asU8 ≠ 0 := by cases content <;> simp [Content.typ, ContentType.asU8]
  have hfromU8 : ContentType.fromU8 content.typ.asU8 = content.typ := by cases content <;> rfl
  obtain ⟨sealer, hopen, hlen, rfl⟩ := Direction.openRecord_of_emit lawful htyp h
  rw [hfromU8] at hopen
  simp only [receive, hopen]
  cases content with
  | application data => rfl
  | ticket body =>
      have hwhole : wholeMessages (Content.ticket body).fragment
          = [Message.of .newSessionTicket body] := by
        rw [Content.ticket_fragment, wholeMessages_single (Content.ticket_framed hlen)]
      simp [hwhole, Content.typ, Content.updates, Message.of]
  | update requested =>
      have hwhole : wholeMessages (Content.update requested).fragment
          = [Message.of .keyUpdate [if requested then 0x01 else 0x00]] := by
        rw [Content.update_fragment, wholeMessages_single (Content.update_framed requested)]
      have hnext : { peer.receiving with sealer }.next lawful = peer.receiving.next lawful := rfl
      simp [hwhole, hnext, Content.typ, Content.updates, Message.of, Direction.ratchet_eq lawful]

/-! ### The link -/

/-- The two ends, what is in flight between them, and the application data that was sent and
came out on either side. -/
structure Link where
  connection : Connection
  peer : Peer
  toConnection : List Bytes := []
  toPeer : List Bytes := []
  sent : List Bytes := []
  arrived : List Bytes := []
  written : List Bytes := []
  received : List Bytes := []
  deriving Repr, DecidableEq

namespace Link

inductive Event
  | peerSends (content : Content)
  | writes (data : Bytes)
  | reads
  | peerReceives
  deriving Repr, DecidableEq

/-- One event. A send that fails sends nothing, and nothing is received from an empty queue. -/
def step (ring : Ring) (link : Link) : Event → Link
  | .peerSends content =>
      match link.peer.sending.sends ring content with
      | some (record, sending) =>
          { link with
            peer := { link.peer with sending }
            toConnection := link.toConnection ++ [record]
            sent := link.sent ++ content.data }
      | none => link
  | .writes data =>
      match link.connection.write ring data with
      | (.ok record, connection) =>
          { link with
            connection
            toPeer := link.toPeer ++ [record]
            written := link.written ++ [data] }
      | (.error _, connection) => { link with connection }
  | .reads =>
      match link.toConnection with
      | [] => link
      | record :: rest =>
          let (result, connection) := link.connection.read ring record
          { link with
            connection
            toConnection := rest
            toPeer := link.toPeer ++ Connection.repliesOf result
            arrived := link.arrived ++ Connection.dataOf result }
  | .peerReceives =>
      match link.toPeer with
      | [] => link
      | record :: rest =>
          let (result, peer) := link.peer.receive ring record
          { link with
            peer
            toPeer := rest
            received := link.received ++ match result with
              | .ok ⟨.applicationData, data⟩ => [data]
              | _ => [] }

def run (ring : Ring) (link : Link) (events : List Event) : Link :=
  events.foldl (step ring) link

/-- A connection and a peer with its secrets, before anything is sent. -/
def start (connection : Connection) : Link where
  connection := connection
  peer := ⟨connection.receiving, connection.sending⟩

/-- One direction: the records in flight lead the receiving end to the sending one, and the data
that came out is the data sent, less what is in flight. -/
structure Flow (ring : Ring) (receiver sender : Direction) (queue : List Bytes)
    (sent received : List Bytes) (flight : List (Content × Bytes)) : Prop where
  walk : Walk (Direction.Carries ring) receiver flight sender
  queued : queue = flight.map Prod.snd
  data : sent = received ++ flight.flatMap (·.1.data)

/-- The invariant: both directions flow. -/
def InStep (ring : Ring) (link : Link) : Prop :=
  (∃ flight, Flow ring link.connection.receiving link.peer.sending link.toConnection link.sent
    link.arrived flight) ∧
  ∃ flight, Flow ring link.peer.receiving link.connection.sending link.toPeer link.written
    link.received flight

section Flow

variable {ring : Ring} {receiver sender after : Direction} {queue sent received : List Bytes}
  {flight : List (Content × Bytes)} {content : Content} {record : Bytes}

theorem Flow.push (h : Flow ring receiver sender queue sent received flight)
    (hcarries : sender.Carries ring (content, record) after) :
    Flow ring receiver after (queue ++ [record]) (sent ++ content.data) received
      (flight ++ [(content, record)]) where
  walk := walk_snoc h.walk hcarries
  queued := by simp [h.queued]
  data := by simp [h.data]

/-- The record at the head of a queue is the next step of the receiving end. -/
theorem Flow.head {rest : List Bytes}
    (h : Flow ring receiver sender (record :: rest) sent received flight) :
    ∃ content flight' after, flight = (content, record) :: flight' ∧
      receiver.Carries ring (content, record) after ∧
      Flow ring after sender rest sent (received ++ content.data) flight' := by
  cases flight with
  | nil =>
      have hqueued := h.queued
      simp at hqueued
  | cons first flight =>
      obtain ⟨content, record'⟩ := first
      obtain ⟨rfl, hrest⟩ : record = record' ∧ rest = flight.map Prod.snd := by
        simpa using h.queued
      obtain ⟨after, hcarries, hwalk⟩ := walk_cons.mp h.walk
      exact ⟨content, flight, after, rfl, hcarries, hwalk, hrest, by simp [h.data]⟩

/-- With nothing in flight the ends agree. -/
theorem Flow.drained (h : Flow ring receiver sender [] sent received flight) :
    receiver = sender ∧ received = sent := by
  obtain rfl : flight = [] := by simpa using h.queued.symm
  exact ⟨h.walk, by simpa using h.data.symm⟩

end Flow

section Steps

variable {ring : Ring} (lawful : ring.Lawful) {link : Link}

theorem inStep_start (ring : Ring) (connection : Connection) : (start connection).InStep ring :=
  ⟨⟨[], rfl, rfl, rfl⟩, ⟨[], rfl, rfl, rfl⟩⟩

include lawful in
theorem inStep_reads (h : link.InStep ring) : (link.step ring .reads).InStep ring := by
  obtain ⟨⟨inbound, hin⟩, outbound, hout⟩ := h
  simp only [step]
  split
  · exact ⟨⟨inbound, hin⟩, outbound, hout⟩
  · next record rest hqueue =>
      rw [hqueue] at hin
      obtain ⟨content, inbound', after, -, hcarries, hrest⟩ := hin.head
      obtain ⟨-, rfl, hfollows⟩ := Connection.read_of_carries lawful hcarries
      rw [← hfollows.data] at hrest
      refine ⟨⟨inbound', hrest⟩, ?_⟩
      rcases hfollows.sending with ⟨hnone, hsame⟩ | ⟨reply, hreply, hanswer⟩
      · refine ⟨outbound, ?_⟩
        simpa [hnone, hsame] using hout
      · refine ⟨outbound ++ [(.update false, reply)], ?_⟩
        simpa [hreply, Content.data] using hout.push hanswer

include lawful in
theorem inStep_peerReceives (h : link.InStep ring) :
    (link.step ring .peerReceives).InStep ring := by
  obtain ⟨hin, outbound, hout⟩ := h
  simp only [step]
  split
  · exact ⟨hin, outbound, hout⟩
  · next record rest hqueue =>
      rw [hqueue] at hout
      obtain ⟨content, outbound', after, -, hcarries, hrest⟩ := hout.head
      rw [Peer.receive_of_carries lawful hcarries]
      refine ⟨hin, outbound', ?_⟩
      cases content with
      | application data => exact hrest
      | ticket body => exact hrest
      | update requested => exact hrest

include lawful in
/-- Every event keeps the ends in step. -/
theorem inStep_step (h : link.InStep ring) (event : Event) : (link.step ring event).InStep ring := by
  cases event with
  | peerSends content =>
      obtain ⟨⟨inbound, hin⟩, hout⟩ := h
      simp only [step]
      split
      · next record sending hsends => exact ⟨⟨_, hin.push hsends⟩, hout⟩
      · exact ⟨⟨inbound, hin⟩, hout⟩
  | writes data =>
      obtain ⟨hin, outbound, hout⟩ := h
      rcases Connection.write_carries ring link.connection data with
        ⟨record, after, hwrite, hreceiving, hcarries⟩ | ⟨err, hwrite⟩
      · simp only [step, hwrite]
        refine ⟨?_, _, hout.push hcarries⟩
        rw [hreceiving]
        exact hin
      · simp only [step, hwrite]
        exact ⟨hin, outbound, hout⟩
  | reads => exact inStep_reads lawful h
  | peerReceives => exact inStep_peerReceives lawful h

include lawful in
theorem inStep_run (h : link.InStep ring) (events : List Event) :
    (link.run ring events).InStep ring := by
  induction events generalizing link with
  | nil => exact h
  | cons event events ih => exact ih (inStep_step lawful h event)

end Steps

/-- The ratchets stay in step. In every order of events, what either end is about to receive
opens, the data comes out as it was sent, and a direction with nothing in flight is on one
secret, key and number at both ends. -/
theorem run_inStep {ring : Ring} (lawful : ring.Lawful) (connection : Connection)
    (events : List Event) :
    let link := (start connection).run ring events
    (∀ record rest, link.toConnection = record :: rest →
      ∃ opened opener, link.connection.opener.openRecord ring record = (.ok opened, opener)) ∧
    (∀ record rest, link.toPeer = record :: rest →
      ∃ opened, (link.peer.receive ring record).1 = .ok opened) ∧
    link.arrived <+: link.sent ∧ link.received <+: link.written ∧
    (link.toConnection = [] →
      link.connection.receiving = link.peer.sending ∧ link.arrived = link.sent) ∧
    (link.toPeer = [] →
      link.peer.receiving = link.connection.sending ∧ link.received = link.written) := by
  intro link
  have hinv : link.InStep ring := inStep_run lawful (inStep_start ring connection) events
  obtain ⟨⟨inbound, hin⟩, outbound, hout⟩ := hinv
  refine ⟨?_, ?_, ⟨_, hin.data.symm⟩, ⟨_, hout.data.symm⟩, ?_, ?_⟩
  · intro record rest hqueue
    rw [hqueue] at hin
    obtain ⟨content, -, after, -, hcarries, -⟩ := hin.head
    exact (Connection.read_of_carries lawful hcarries).1
  · intro record rest hqueue
    rw [hqueue] at hout
    obtain ⟨content, -, after, -, hcarries, -⟩ := hout.head
    exact ⟨_, by rw [Peer.receive_of_carries lawful hcarries]⟩
  · intro hqueue
    rw [hqueue] at hin
    exact hin.drained
  · intro hqueue
    rw [hqueue] at hout
    exact hout.drained

/-- A requested update that crosses what was written before it. -/
def crossing : List Event :=
  [.writes [1], .peerSends (.update true), .peerSends (.application [2]), .reads, .writes [3],
    .reads, .peerReceives, .peerReceives, .peerReceives]

/-- The answer goes out after the first write and under its key, the second write under the
next. -/
theorem run_inStep_crossing :
    ∃ link, link = (start (Connection.sample [])).run Ring.sample crossing ∧
      link.peer.receiving = link.connection.sending ∧
      link.connection.receiving = link.peer.sending ∧
      link.received = [[1], [3]] ∧ link.arrived = [[2]] := by
  have hrun := run_inStep Ring.sample_lawful (Connection.sample []) crossing
  have hempty : ((start (Connection.sample [])).run Ring.sample crossing).toConnection = [] ∧
      ((start (Connection.sample [])).run Ring.sample crossing).toPeer = [] := by
    decide +kernel
  have hdata : ((start (Connection.sample [])).run Ring.sample crossing).received = [[1], [3]] ∧
      ((start (Connection.sample [])).run Ring.sample crossing).arrived = [[2]] := by
    decide +kernel
  -- Named, so that nothing below evaluates the run again.
  generalize (start (Connection.sample [])).run Ring.sample crossing = link at hrun hempty hdata ⊢
  obtain ⟨-, -, -, -, hin, hout⟩ := hrun
  exact ⟨link, rfl, (hout hempty.2).1, (hin hempty.1).1, hdata⟩

end Link

end RustyTls
