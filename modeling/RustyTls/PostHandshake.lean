import RustyTls.Connection
import RustyTls.Framing
import RustyTls.RecordSound
import RustyTls.ScheduleSound

/-!
# RustyTls.PostHandshake

What the post-handshake messages of one record do to an established connection.

A connection has two directions, and a `Direction` is what both ends of one hold: the secret and
the key and number of its next record. `Direction.emit` sends a record, and moves to the next
secret if the record carries a KeyUpdate; `Direction.answer` is the record a connection answers
a requested update with.

The messages of a fragment are handled one after the other and nothing is taken back when a
later one is refused. `postHandshakeMessage_eq` says what one message does and
`postHandshakeLoop_spec` how far a fragment gets. What a fragment that succeeds is made of is
`read_admissible`.
-/

namespace RustyTls

open Core

/-! ### Sealing -/

/-- A cipher that does what it is documented to do seals every fragment that is not too long,
until the counter is spent. -/
theorem sealRecord_complete {ring : Ring} (complete : ring.Complete) {sealer : Sealer}
    {seq : UInt64} (hseq : sealer.seq.next = some seq) (typ : ContentType) {fragment : Bytes}
    (hlen : fragment.length ≤ maxFragmentLen) :
    ∃ record, sealer.sealRecord ring typ fragment 0
      = (.ok record, { sealer with seq := .advance seq }) := by
  obtain ⟨hfragment, -, hinner, -, -⟩ := limits
  have hsum : saturatingAdd (saturatingAdd fragment.length 1) 0 = fragment.length + 1 := by
    simp only [saturatingAdd]
    omega
  have hkey : sealer.key.key.length = sealer.key.alg.ringAlgorithm.keyLen := by
    rw [sealer.key.key_length]
    cases sealer.key.alg <;> rfl
  obtain ⟨sealed, hsealed⟩ := complete.seals sealer.key.alg.ringAlgorithm sealer.key.key
    (sealer.key.nonce seq) (additionalData (fragment.length + 1 + tagLen))
    (Sealer.innerPlaintext typ fragment 0) hkey (nonce_length _ _)
    (by simp only [Sealer.innerPlaintext, List.length_append, List.length_singleton,
          List.length_replicate]; omega)
  refine ⟨additionalData (fragment.length + 1 + tagLen) ++ sealed, ?_⟩
  have hsealing : sealer.sealing ring typ fragment 0
      = .ok (additionalData (fragment.length + 1 + tagLen) ++ sealed, seq) := by
    simp only [Sealer.sealing, hsum, refuse_neg _ (show ¬ maxFragmentLen < fragment.length by omega),
      refuse_neg _ (show ¬ maxInnerPlaintextLen < fragment.length + 1 by omega), ok_bind,
      Sequence.peek, hseq, okOr_some, hsealed]
  rw [Sealer.sealRecord, hsealing]

/-! ### Directions -/

/-- One direction of a connection, as either end holds it. -/
structure Direction where
  aead : Aead
  hash : Hash
  secret : Bytes
  sealer : Sealer
  deriving Repr, DecidableEq

namespace Direction

/-- The direction on its next secret. -/
def ratchet (ring : Ring) (direction : Direction) : Option Direction :=
  let secret := updateTrafficSecret ring direction.hash direction.secret
  let keys := trafficKeys ring direction.hash secret direction.aead.keyLen
  match Sealer.new direction.aead keys.key keys.iv with
  | .ok sealer => some { direction with secret, sealer }
  | .error _ => none

/-- Send one record. One that `updates` is the last under its key. -/
def emit (ring : Ring) (direction : Direction) (typ : ContentType) (fragment : Bytes)
    (updates : Bool) : Option (Bytes × Direction) :=
  match direction.sealer.sealRecord ring typ fragment 0 with
  | (.error _, _) => none
  | (.ok record, sealer) =>
      if updates then
        (direction.ratchet ring).map fun next => (record, next)
      else
        some (record, { direction with sealer })

/-- The record that answers a requested update. -/
def answer (ring : Ring) (direction : Direction) : Option (Bytes × Direction) :=
  direction.emit ring .handshake (Message.encode .keyUpdate [0x00]) true

/-- The records that answer `n` requested updates, one after the other. -/
def answers (ring : Ring) : Nat → Direction → Option (Bytes × Direction)
  | 0, direction => some ([], direction)
  | n + 1, direction => do
      let (record, direction) ← direction.answer ring
      let (rest, direction) ← answers ring n direction
      some (record ++ rest, direction)

section Ratchet

variable {ring : Ring} (lawful : ring.Lawful)

/-- `ratchet`, which never fails. -/
def next (direction : Direction) : Direction :=
  { direction with
    secret := updateTrafficSecret ring direction.hash direction.secret
    sealer := ⟨directionKey lawful direction.hash
      (updateTrafficSecret ring direction.hash direction.secret) direction.aead, .startingAt 0⟩ }

@[simp] theorem next_hash (direction : Direction) :
    (direction.next lawful).hash = direction.hash := rfl

@[simp] theorem next_secret (direction : Direction) :
    (direction.next lawful).secret
      = updateTrafficSecret ring direction.hash direction.secret := rfl

theorem ratchet_eq (direction : Direction) :
    direction.ratchet ring = some (direction.next lawful) := by
  simp only [ratchet, sealer_new lawful]
  rfl

/-- An answer is a record, and then the next secret. -/
theorem answer_eq (direction : Direction) :
    direction.answer ring =
      match direction.sealer.sealRecord ring .handshake (Message.encode .keyUpdate [0x00]) 0 with
      | (.error _, _) => none
      | (.ok record, _) => some (record, direction.next lawful) := by
  rw [answer, emit]
  split
  · rfl
  · rw [if_pos rfl, ratchet_eq lawful, Option.map_some]

include lawful in
theorem answer_next {direction after : Direction} {record : Bytes}
    (h : direction.answer ring = some (record, after)) :
    after = direction.next lawful ∧ record ≠ [] := by
  rw [answer_eq lawful] at h
  split at h
  · cases h
  · next record' sealer hseal =>
      obtain ⟨rfl, rfl⟩ : record' = record ∧ direction.next lawful = after := by simpa using h
      obtain ⟨seq, sealed, -, -, -, -, rfl, -⟩ := sealRecord_ok hseal
      exact ⟨rfl, by simp [additionalData]⟩

end Ratchet

/-- Only a spent counter keeps an answer back. -/
theorem answer_eq_none {ring : Ring} (complete : ring.Complete) {direction : Direction} :
    direction.answer ring = none ↔ direction.sealer.seq.next = none := by
  rw [answer_eq complete.toLawful]
  constructor
  · intro h
    cases hseq : direction.sealer.seq.next with
    | none => rfl
    | some seq =>
        have hlen : (Message.encode .keyUpdate [0x00]).length ≤ maxFragmentLen := by decide
        obtain ⟨record, hseal⟩ := sealRecord_complete complete hseq .handshake hlen
        rw [hseal] at h
        cases h
  · intro h
    split
    · rfl
    · next record sealer hseal =>
        obtain ⟨seq, -, hpeek, -⟩ := sealRecord_ok hseal
        rw [Sequence.peek, h] at hpeek
        cases hpeek

/-- `n` answers are `n` updates of the secret. -/
theorem answers_secret {ring : Ring} (lawful : ring.Lawful) :
    ∀ (n : Nat) {direction after : Direction} {bytes : Bytes},
      direction.answers ring n = some (bytes, after) →
        after.secret = (updateTrafficSecret ring direction.hash)^[n] direction.secret := by
  intro n
  induction n with
  | zero =>
      intro direction after bytes h
      obtain ⟨-, rfl⟩ : [] = bytes ∧ direction = after := by simpa [answers] using h
      rfl
  | succ n ih =>
      intro direction after bytes h
      simp only [answers, Option.bind_eq_bind, Option.bind_eq_some_iff, Prod.exists] at h
      obtain ⟨record, moved, hanswer, rest, last, hrest, heq⟩ := h
      obtain ⟨-, rfl⟩ : record ++ rest = bytes ∧ last = after := by simpa using heq
      obtain ⟨rfl, -⟩ := answer_next lawful hanswer
      rw [ih hrest, next_hash, next_secret, Function.iterate_succ_apply]

/-- Answers after the first are octets. -/
theorem answers_ne_nil {ring : Ring} (lawful : ring.Lawful) {n : Nat}
    {direction after : Direction} {bytes : Bytes}
    (h : direction.answers ring (n + 1) = some (bytes, after)) : bytes ≠ [] := by
  simp only [answers, Option.bind_eq_bind, Option.bind_eq_some_iff, Prod.exists] at h
  obtain ⟨record, moved, hanswer, rest, last, -, heq⟩ := h
  obtain ⟨rfl, -⟩ : record ++ rest = bytes ∧ last = after := by simpa using heq
  obtain ⟨-, hrecord⟩ := answer_next lawful hanswer
  simp [hrecord]

end Direction

namespace Connection

/-- What a connection sends under. -/
def sending (connection : Connection) : Direction :=
  ⟨connection.aead, connection.hash, connection.clientSecret, connection.sealer⟩

/-- What a connection receives under. -/
def receiving (connection : Connection) : Direction :=
  ⟨connection.aead, connection.hash, connection.serverSecret,
    ⟨connection.opener.key, connection.opener.seq⟩⟩

/-- A connection with another sending direction. -/
def withSending (connection : Connection) (sending : Direction) : Connection :=
  { connection with clientSecret := sending.secret, sealer := sending.sealer }

/-- A connection with another receiving direction. -/
def withReceiving (connection : Connection) (receiving : Direction) : Connection :=
  { connection with
    serverSecret := receiving.secret
    opener := ⟨receiving.sealer.key, receiving.sealer.seq⟩ }

@[simp] theorem withReceiving_sending (connection : Connection) (receiving : Direction) :
    (connection.withReceiving receiving).sending = connection.sending := rfl

@[simp] theorem withSending_receiving (connection : Connection) (sending : Direction) :
    (connection.withSending sending).receiving = connection.receiving := rfl

end Connection

namespace Connection

/-! ### One message -/

section Moves

variable {ring : Ring} (lawful : ring.Lawful)

theorem rekeyReceiving_eq (connection : Connection) :
    connection.rekeyReceiving ring
      = (.ok (), connection.withReceiving (connection.receiving.next lawful)) := by
  simp only [rekeyReceiving, opener_new lawful]
  rfl

/-- A requested update is answered, or nothing of the sending direction moves. -/
theorem rekeySending_eq (connection : Connection) :
    (∃ record, connection.sending.answer ring = some (record, connection.sending.next lawful) ∧
      connection.rekeySending ring
        = (.ok record, connection.withSending (connection.sending.next lawful))) ∨
    (connection.sending.answer ring = none ∧
      ∃ err, connection.rekeySending ring = (.error err, connection)) := by
  cases hseal : connection.sealer.sealRecord ring .handshake (Message.encode .keyUpdate [0x00]) 0 with
  | mk result sealer =>
      have hanswer := Direction.answer_eq lawful connection.sending
      simp only [sending, hseal] at hanswer
      cases result with
      | ok record =>
          refine .inl ⟨record, hanswer, ?_⟩
          simp only [rekeySending, hseal, sealer_new lawful]
          rfl
      | error err =>
          obtain rfl := sealRecord_error hseal
          refine .inr ⟨hanswer, .record err, ?_⟩
          simp only [rekeySending, hseal]

end Moves

/-- A message that is accepted after the handshake. -/
def Accepts (ring : Ring) (connection : Connection) (message : Message) : Prop :=
  message.typ = .keyUpdate ∨ message.typ = .newSessionTicket ∧
    (connection.resumptionMaster = [] ∨
      ∃ session, connection.sessionFrom ring message.body = .ok session)

/-- An update that asks for one in return. -/
def Requests (message : Message) : Prop := message.typ = .keyUpdate ∧ message.body = [0x01]

/-- A requested update is reached: everything before it is accepted. -/
def Reaches (ring : Ring) (connection : Connection) (ms : List Message) : Prop :=
  ∃ front message rest, ms = front ++ message :: rest ∧ Requests message ∧
    ∀ m ∈ front, connection.Accepts ring m

/-- The session a message gives. -/
def sessionOf (ring : Ring) (connection : Connection) (message : Message) : List Session :=
  if message.typ = .newSessionTicket ∧ connection.resumptionMaster ≠ [] then
    match connection.sessionFrom ring message.body with
    | .ok session => [session]
    | .error _ => []
  else
    []

theorem reaches_cons {ring : Ring} {connection : Connection} {m : Message} {ms : List Message} :
    connection.Reaches ring (m :: ms) ↔
      Requests m ∨ connection.Accepts ring m ∧ connection.Reaches ring ms := by
  constructor
  · intro h
    obtain ⟨front, message, rest, heq, hrequests, hfront⟩ := h
    cases front with
    | nil =>
        obtain ⟨rfl, rfl⟩ : m = message ∧ ms = rest := by simpa using heq
        exact .inl hrequests
    | cons first front =>
        obtain ⟨rfl, hms⟩ : m = first ∧ ms = front ++ message :: rest := by simpa using heq
        exact .inr ⟨hfront m (by simp), front, message, rest, hms, hrequests,
          fun m' hm' => hfront m' (by simp [hm'])⟩
  · intro h
    rcases h with hrequests | ⟨haccepts, front, message, rest, rfl, hrequests, hfront⟩
    · exact ⟨[], m, ms, rfl, hrequests, by simp⟩
    · refine ⟨m :: front, message, rest, rfl, hrequests, ?_⟩
      intro m' hm'
      rcases List.mem_cons.mp hm' with rfl | hm'
      · exact haccepts
      · exact hfront m' hm'

/-- What one message does. -/
theorem postHandshakeMessage_eq {ring : Ring} (lawful : ring.Lawful) (connection : Connection)
    (m : Message) :
    (¬ connection.Accepts ring m ∧
      ∃ err, connection.postHandshakeMessage ring m = (.error err, connection)) ∨
    (m.typ = .newSessionTicket ∧ connection.Accepts ring m ∧
      connection.postHandshakeMessage ring m = (.ok ([], connection.sessionOf ring m), connection)) ∨
    (m.typ = .keyUpdate ∧ m.body ≠ [0x01] ∧
      connection.postHandshakeMessage ring m
        = (.ok ([], []), connection.withReceiving (connection.receiving.next lawful))) ∨
    (Requests m ∧ ∃ record,
      connection.sending.answer ring = some (record, connection.sending.next lawful) ∧
      connection.postHandshakeMessage ring m = (.ok (record, []),
        (connection.withReceiving (connection.receiving.next lawful)).withSending
          (connection.sending.next lawful))) ∨
    (Requests m ∧ connection.sending.answer ring = none ∧
      ∃ err, connection.postHandshakeMessage ring m
        = (.error err, connection.withReceiving (connection.receiving.next lawful))) := by
  by_cases hticket : m.typ = .newSessionTicket
  · by_cases hmaster : connection.resumptionMaster = []
    · refine .inr (.inl ⟨hticket, .inr ⟨hticket, .inl hmaster⟩, ?_⟩)
      simp [postHandshakeMessage, sessionOf, hticket, hmaster]
    · cases hsession : connection.sessionFrom ring m.body with
      | ok session =>
          refine .inr (.inl ⟨hticket, .inr ⟨hticket, .inr ⟨session, hsession⟩⟩, ?_⟩)
          simp [postHandshakeMessage, sessionOf, hticket, hmaster, hsession]
      | error err =>
          refine .inl ⟨?_, .handshake err, ?_⟩
          · simp [Accepts, hticket, hmaster, hsession]
          · simp [postHandshakeMessage, hticket, hmaster, hsession]
  by_cases hupdate : m.typ = .keyUpdate
  · by_cases hbody : m.body = [0x01]
    · rcases rekeySending_eq lawful (connection.withReceiving (connection.receiving.next lawful)) with
        ⟨record, hanswer, hrekey⟩ | ⟨hanswer, err, hrekey⟩
      · refine .inr (.inr (.inr (.inl ⟨⟨hupdate, hbody⟩, record, hanswer, ?_⟩)))
        simp [postHandshakeMessage, keyUpdate, rekeyReceiving_eq lawful, hupdate, hbody, hrekey]
      · refine .inr (.inr (.inr (.inr ⟨⟨hupdate, hbody⟩, hanswer, err, ?_⟩)))
        simp [postHandshakeMessage, keyUpdate, rekeyReceiving_eq lawful, hupdate, hbody, hrekey]
    · refine .inr (.inr (.inl ⟨hupdate, hbody, ?_⟩))
      simp [postHandshakeMessage, keyUpdate, rekeyReceiving_eq lawful, hupdate, hbody]
  · refine .inl ⟨?_, .unexpectedMessage "a post-handshake message" m.typ, ?_⟩
    · simp [Accepts, hticket, hupdate]
    · rw [postHandshakeMessage]
      split
      · contradiction
      · contradiction
      · rfl

/-! ### The messages of a fragment -/

/-- What a fragment's messages come to. -/
structure LoopSpec (ring : Ring) (connection : Connection) (ms : List Message)
    (result : Except ClientError (Bytes × List Session)) (after : Connection) (n : Nat) : Prop where
  /-- `n` answers were made, and are what a success returns. -/
  answers : ∃ bytes, connection.sending.answers ring n = some (bytes, after.sending) ∧
    ∀ reply sessions, result = .ok (reply, sessions) → reply = bytes
  /-- None was made when none was reached, or the counter was spent. -/
  none_iff : n = 0 ↔ ¬ connection.Reaches ring ms ∨ connection.sealer.seq.next = none
  /-- There are no more answers than messages. -/
  le : n ≤ ms.length
  /-- Only what is accepted throughout succeeds, with the sessions of its tickets. -/
  accepts : ∀ reply sessions, result = .ok (reply, sessions) →
    (∀ m ∈ ms, connection.Accepts ring m) ∧ sessions = ms.flatMap (connection.sessionOf ring)
  /-- What is accepted throughout succeeds, if the counter is not spent. -/
  succeeds : (∀ m ∈ ms, connection.Accepts ring m) →
    ¬ (connection.Reaches ring ms ∧ connection.sealer.seq.next = none) →
    ∃ out, result = .ok out

section Loop

variable {ring : Ring} {connection : Connection} {m : Message} {ms : List Message}

theorem postHandshakeLoop_error {err : ClientError} {after : Connection}
    (h : connection.postHandshakeMessage ring m = (.error err, after)) :
    connection.postHandshakeLoop ring (m :: ms) = (.error err, after) := by
  rw [postHandshakeLoop, h]

theorem postHandshakeLoop_ok {reply : Bytes} {sessions : List Session} {after : Connection}
    (h : connection.postHandshakeMessage ring m = (.ok (reply, sessions), after)) :
    connection.postHandshakeLoop ring (m :: ms) =
      ((after.postHandshakeLoop ring ms).1 >>= fun out =>
        .ok (reply ++ out.1, sessions ++ out.2), (after.postHandshakeLoop ring ms).2) := by
  rw [postHandshakeLoop, h]
  cases hrest : after.postHandshakeLoop ring ms with
  | mk result last => cases result <;> simp [hrest]

/-- A message that answers nothing counts for nothing. -/
theorem LoopSpec.cons_quiet {after : Connection} {n : Nat} {sessions : List Session}
    {result : Except ClientError (Bytes × List Session)}
    (hrequests : ¬ Requests m) (haccepts : connection.Accepts ring m)
    (hsessions : connection.sessionOf ring m = sessions)
    (h : LoopSpec ring connection ms result after n) :
    LoopSpec ring connection (m :: ms)
      (result >>= fun out => .ok (out.1, sessions ++ out.2)) after n := by
  have hreaches : connection.Reaches ring (m :: ms) ↔ connection.Reaches ring ms := by
    rw [reaches_cons]
    tauto
  obtain ⟨bytes, hanswers, hreply⟩ := h.answers
  refine ⟨⟨bytes, hanswers, ?_⟩, ?_, ?_, ?_, ?_⟩
  · intro reply all hok
    obtain ⟨⟨replies, more⟩, hresult, heq⟩ := bind_eq_ok.mp hok
    obtain ⟨rfl, -⟩ : replies = reply ∧ sessions ++ more = all := by simpa using heq
    exact hreply _ _ hresult
  · rw [hreaches]
    exact h.none_iff
  · have := h.le
    simp only [List.length_cons]
    omega
  · intro reply all hok
    obtain ⟨⟨replies, more⟩, hresult, heq⟩ := bind_eq_ok.mp hok
    obtain ⟨-, rfl⟩ : replies = reply ∧ sessions ++ more = all := by simpa using heq
    obtain ⟨hall, rfl⟩ := h.accepts _ _ hresult
    refine ⟨?_, by rw [List.flatMap_cons, hsessions]⟩
    intro m' hm'
    rcases List.mem_cons.mp hm' with rfl | hm'
    · exact haccepts
    · exact hall m' hm'
  · intro hall hspent
    rw [hreaches] at hspent
    obtain ⟨out, hout⟩ := h.succeeds (fun m' hm' => hall m' (List.mem_cons_of_mem _ hm')) hspent
    exact ⟨_, by rw [hout, ok_bind]⟩

/-- An answered message counts for one, and the rest is handled on the next secrets. -/
theorem LoopSpec.cons_answered {lawful : ring.Lawful} {record : Bytes} {moved after : Connection}
    {n : Nat} {result : Except ClientError (Bytes × List Session)} (hrequests : Requests m)
    (hanswer : connection.sending.answer ring = some (record, connection.sending.next lawful))
    (hseq : connection.sealer.seq.next ≠ none)
    (hmoved : moved = (connection.withReceiving (connection.receiving.next lawful)).withSending
      (connection.sending.next lawful))
    (h : LoopSpec ring moved ms result after n) :
    LoopSpec ring connection (m :: ms)
      (result >>= fun out => .ok (record ++ out.1, [] ++ out.2)) after (n + 1) := by
  -- What is accepted and what a ticket gives do not depend on the traffic secrets.
  have haccepts : ∀ m', moved.Accepts ring m' ↔ connection.Accepts ring m' := by
    intro m'
    subst hmoved
    exact Iff.rfl
  have hsession : moved.sessionOf ring = connection.sessionOf ring := by
    subst hmoved
    rfl
  have hnone : connection.sessionOf ring m = [] := by
    simp [sessionOf, hrequests.1]
  have hfresh : moved.sealer.seq.next = some 0 := by
    subst hmoved
    rfl
  have hsending : moved.sending = connection.sending.next lawful := by
    subst hmoved
    rfl
  obtain ⟨bytes, hanswers, hreply⟩ := h.answers
  refine ⟨⟨record ++ bytes, ?_, ?_⟩, ?_, ?_, ?_, ?_⟩
  · rw [hsending] at hanswers
    simp [Direction.answers, hanswer, hanswers]
  · intro reply all hok
    obtain ⟨⟨replies, more⟩, hresult, heq⟩ := bind_eq_ok.mp hok
    obtain ⟨rfl, -⟩ : record ++ replies = reply ∧ more = all := by simpa using heq
    rw [hreply _ _ hresult]
  · have hreaches : connection.Reaches ring (m :: ms) := reaches_cons.mpr (.inl hrequests)
    simp [hreaches, hseq]
  · have := h.le
    simp only [List.length_cons]
    omega
  · intro reply all hok
    obtain ⟨⟨replies, more⟩, hresult, heq⟩ := bind_eq_ok.mp hok
    obtain ⟨-, rfl⟩ : record ++ replies = reply ∧ more = all := by simpa using heq
    obtain ⟨hall, rfl⟩ := h.accepts _ _ hresult
    refine ⟨?_, by rw [List.flatMap_cons, hnone, hsession, List.nil_append]⟩
    intro m' hm'
    rcases List.mem_cons.mp hm' with rfl | hm'
    · exact .inl hrequests.1
    · exact (haccepts m').mp (hall m' hm')
  · intro hall _
    obtain ⟨out, hout⟩ := h.succeeds
      (fun m' hm' => (haccepts m').mpr (hall m' (List.mem_cons_of_mem _ hm'))) (by simp [hfresh])
    exact ⟨_, by rw [hout, ok_bind]⟩

/-- A message that is refused ends the fragment. -/
theorem LoopSpec.cons_refused {after : Connection} {err : ClientError}
    (hsending : after.sending = connection.sending)
    (hrefused : ¬ connection.Accepts ring m ∨ Requests m ∧ connection.sealer.seq.next = none) :
    LoopSpec ring connection (m :: ms) (.error err) after 0 := by
  refine ⟨⟨[], by simp [Direction.answers, hsending], by simp⟩, ?_, Nat.zero_le _, by simp, ?_⟩
  · rw [reaches_cons]
    rcases hrefused with haccepts | ⟨-, hseq⟩
    · have hrequests : ¬ Requests m := fun h => haccepts (.inl h.1)
      simp [haccepts, hrequests]
    · simp [hseq]
  · intro hall hspent
    rcases hrefused with haccepts | ⟨hrequests, hseq⟩
    · exact absurd (hall m (List.mem_cons_self ..)) haccepts
    · exact absurd ⟨reaches_cons.mpr (.inl hrequests), hseq⟩ hspent

end Loop

/-- How far a fragment gets. -/
theorem postHandshakeLoop_spec {ring : Ring} (complete : ring.Complete) :
    ∀ (ms : List Message) (connection : Connection), ∃ n, LoopSpec ring connection ms
      (connection.postHandshakeLoop ring ms).1 (connection.postHandshakeLoop ring ms).2 n := by
  have lawful := complete.toLawful
  intro ms
  induction ms with
  | nil =>
      intro connection
      refine ⟨0, ⟨[], rfl, ?_⟩, ?_, Nat.le_refl _, ?_, ?_⟩
      · intro reply sessions h
        simp only [postHandshakeLoop, Except.ok.injEq, Prod.mk.injEq] at h
        exact h.1.symm
      · simp [Reaches]
      · intro reply sessions h
        simp only [postHandshakeLoop, Except.ok.injEq, Prod.mk.injEq] at h
        exact ⟨by simp, h.2.symm⟩
      · exact fun _ _ => ⟨_, rfl⟩
  | cons m ms ih =>
      intro connection
      rcases postHandshakeMessage_eq lawful connection m with
        ⟨hrefused, err, hmessage⟩ | ⟨htyp, haccepts, hmessage⟩ | ⟨htyp, hbody, hmessage⟩ |
        ⟨hrequests, record, hanswer, hmessage⟩ | ⟨hrequests, hanswer, err, hmessage⟩
      · rw [postHandshakeLoop_error hmessage]
        exact ⟨0, .cons_refused rfl (.inl hrefused)⟩
      · obtain ⟨n, hn⟩ := ih connection
        rw [postHandshakeLoop_ok hmessage]
        exact ⟨n, hn.cons_quiet (fun h => by simp [h.1] at htyp) haccepts rfl⟩
      · obtain ⟨n, hn⟩ := ih (connection.withReceiving (connection.receiving.next lawful))
        rw [postHandshakeLoop_ok hmessage]
        have hn' : LoopSpec ring connection ms _ _ n := ⟨hn.answers, hn.none_iff, hn.le, hn.accepts,
          hn.succeeds⟩
        exact ⟨n, hn'.cons_quiet (fun h => hbody h.2) (.inl htyp) (by simp [sessionOf, htyp])⟩
      · obtain ⟨n, hn⟩ := ih _
        rw [postHandshakeLoop_ok hmessage]
        have hseq : connection.sealer.seq.next ≠ none := by
          intro hseq
          rw [(Direction.answer_eq_none complete).mpr hseq] at hanswer
          cases hanswer
        exact ⟨n + 1, hn.cons_answered hrequests hanswer hseq rfl⟩
      · rw [postHandshakeLoop_error hmessage]
        exact ⟨0, .cons_refused rfl
          (.inr ⟨hrequests, (Direction.answer_eq_none complete).mp hanswer⟩)⟩

/-- Messages that are all accepted give no session exactly when they hold no ticket, or the
connection derives none. -/
theorem flatMap_sessionOf_eq_nil {ring : Ring} {connection : Connection} {ms : List Message}
    (hall : ∀ m ∈ ms, connection.Accepts ring m) :
    ms.flatMap (connection.sessionOf ring) = [] ↔
      connection.resumptionMaster = [] ∨ ∀ m ∈ ms, m.typ ≠ .newSessionTicket := by
  rw [List.flatMap_eq_nil_iff]
  constructor
  · intro h
    by_cases hmaster : connection.resumptionMaster = []
    · exact .inl hmaster
    · refine .inr fun m hm htyp => ?_
      have hnone := h m hm
      rcases hall m hm with hupdate | ⟨-, hempty | ⟨session, hsession⟩⟩
      · rw [htyp] at hupdate
        cases hupdate
      · exact hmaster hempty
      · simp [sessionOf, htyp, hmaster, hsession] at hnone
  · rintro (hmaster | hnone) m hm
    · simp [sessionOf, hmaster]
    · simp [sessionOf, hnone m hm]

/-! ### One record -/

theorem postHandshake_eq (ring : Ring) (connection : Connection) (fragment : Bytes) :
    connection.postHandshake ring fragment =
      ((connection.postHandshakeLoop ring (wholeMessages fragment)).1 >>= fun out =>
        postHandshakeResult out.1 out.2,
        (connection.postHandshakeLoop ring (wholeMessages fragment)).2) := by
  simp only [postHandshake, (split_spec fragment).1]
  cases hloop : connection.postHandshakeLoop ring (wholeMessages fragment) with
  | mk result after => cases result <;> simp

/-- A record that opens is not a change_cipher_spec. -/
theorem head_of_openRecord {ring : Ring} {opener opener' : Opener} {record : Bytes}
    {opened : Opened} (h : opener.openRecord ring record = (.ok opened, opener')) :
    record.head? ≠ some changeCipherSpec := by
  intro hhead
  have hrefused : ∃ err, opener.opening ring record = .error err := by
    by_cases hshort : record.length < headerLen
    · exact ⟨_, by rw [Opener.opening, refuse_pos _ hshort, error_bind]⟩
    · have htyp : record.headD 0 ≠ outerType := by
        rw [List.headD_eq_head?_getD, hhead]
        decide
      exact ⟨_, by rw [Opener.opening, refuse_neg _ hshort, ok_bind, refuse_pos _ htyp, error_bind]⟩
  obtain ⟨err, herr⟩ := hrefused
  rw [Opener.openRecord, herr] at h
  cases h

/-- A record of post-handshake messages. -/
theorem read_handshake {ring : Ring} {connection : Connection} {record fragment : Bytes}
    {opener : Opener}
    (h : connection.opener.openRecord ring record = (.ok ⟨.handshake, fragment⟩, opener)) :
    connection.read ring record = { connection with opener }.postHandshake ring fragment := by
  rw [read, if_neg (head_of_openRecord h), h]
  rfl

/-- Nothing but post-handshake messages moves the sending direction. -/
theorem read_sending_of_other {ring : Ring} {connection : Connection} {record : Bytes}
    (h : ∀ fragment opener,
      connection.opener.openRecord ring record ≠ (.ok ⟨.handshake, fragment⟩, opener)) :
    (connection.read ring record).2.sending = connection.sending := by
  rw [read]
  split
  · rfl
  · split
    · rfl
    · next opened opener hopen =>
        rw [incoming]
        split
        · rfl
        · next htyp =>
            have hother := h opened.fragment opener
            rw [← htyp] at hother
            exact absurd hopen hother
        · split <;> rfl
        · rfl

/-- The sending direction is as it was, or moved by answers that the call returns. -/
def SendingDelivered (ring : Ring) (before : Connection) (result : Except ClientError Incoming)
    (after : Connection) : Prop :=
  after.sending = before.sending ∨ ∃ n reply,
    before.sending.answers ring (n + 1) = some (reply, after.sending) ∧ result = .ok (.reply reply)

/-- A fragment whose answers are delivered: if it reaches a requested update and the counter
is not spent, it holds only messages that are accepted, and no ticket that gives a session. -/
def Undisturbed (ring : Ring) (connection : Connection) (fragment : Bytes) : Prop :=
  connection.Reaches ring (wholeMessages fragment) → connection.sealer.seq.next ≠ none →
    (∀ m ∈ wholeMessages fragment, connection.Accepts ring m) ∧
      (connection.resumptionMaster = [] ∨
        ∀ m ∈ wholeMessages fragment, m.typ ≠ .newSessionTicket)

/-- The secret is not among its own next `n` updates. -/
def NoReturn (ring : Ring) (direction : Direction) (n : Nat) : Prop :=
  ∀ k, 0 < k → k ≤ n → (updateTrafficSecret ring direction.hash)^[k] direction.secret
    ≠ direction.secret

section Delivered

variable {ring : Ring} (complete : ring.Complete) (connection : Connection) (fragment : Bytes)
include complete

theorem postHandshake_delivered (h : connection.Undisturbed ring fragment) :
    SendingDelivered ring connection (connection.postHandshake ring fragment).1
      (connection.postHandshake ring fragment).2 := by
  obtain ⟨n, hn⟩ := postHandshakeLoop_spec complete (wholeMessages fragment) connection
  rw [postHandshake_eq]
  obtain ⟨bytes, hanswers, hreply⟩ := hn.answers
  cases n with
  | zero =>
      refine .inl ?_
      simp only [Direction.answers, Option.some.injEq, Prod.mk.injEq] at hanswers
      exact hanswers.2.symm
  | succ n =>
      have hreached := mt hn.none_iff.mpr (Nat.succ_ne_zero n)
      push Not at hreached
      obtain ⟨hreaches, hseq⟩ := hreached
      obtain ⟨hall, hnone⟩ := h hreaches hseq
      obtain ⟨⟨reply, sessions⟩, hout⟩ := hn.succeeds hall (fun hspent => hseq hspent.2)
      obtain ⟨-, rfl⟩ := hn.accepts reply sessions hout
      obtain rfl := hreply _ _ hout
      refine .inr ⟨n, reply, hanswers, ?_⟩
      have hbytes := Direction.answers_ne_nil complete.toLawful hanswers
      rw [hout, ok_bind, (flatMap_sessionOf_eq_nil hall).mpr hnone]
      simp [postHandshakeResult, hbytes]

theorem undisturbed_of_delivered
    (hreturn : NoReturn ring connection.sending (wholeMessages fragment).length)
    (h : SendingDelivered ring connection (connection.postHandshake ring fragment).1
      (connection.postHandshake ring fragment).2) :
    connection.Undisturbed ring fragment := by
  intro hreaches hseq
  obtain ⟨n, hn⟩ := postHandshakeLoop_spec complete (wholeMessages fragment) connection
  rw [postHandshake_eq] at h
  have hpos : 0 < n := by
    refine Nat.pos_of_ne_zero fun hzero => ?_
    rcases hn.none_iff.mp hzero with hnot | hspent
    · exact hnot hreaches
    · exact hseq hspent
  obtain ⟨bytes, hanswers, -⟩ := hn.answers
  rcases h with hsame | ⟨k, reply, -, hok⟩
  · -- The secret has moved on.
    have hsecret := Direction.answers_secret complete.toLawful n hanswers
    have hback : (connection.postHandshakeLoop ring (wholeMessages fragment)).2.sending.secret
        = connection.sending.secret := congrArg Direction.secret hsame
    rw [hsecret] at hback
    exact absurd hback (hreturn n hpos hn.le)
  · obtain ⟨⟨replies, sessions⟩, hout, hresult⟩ := bind_eq_ok.mp hok
    obtain ⟨hall, rfl⟩ := hn.accepts replies sessions hout
    refine ⟨hall, (flatMap_sessionOf_eq_nil hall).mp ?_⟩
    by_contra hsessions
    by_cases hreplies : replies = []
    · simp [postHandshakeResult, hsessions, hreplies] at hresult
    · simp [postHandshakeResult, hsessions, hreplies] at hresult

end Delivered

/-- A read delivers every change of the sending direction exactly when the record is not a
fragment that reaches a requested update and is then refused. -/
theorem read_sendingDelivered_iff {ring : Ring} (complete : ring.Complete) (connection : Connection)
    (record : Bytes) :
    ((∀ fragment opener,
        connection.opener.openRecord ring record = (.ok ⟨.handshake, fragment⟩, opener) →
          connection.Undisturbed ring fragment) →
      SendingDelivered ring connection (connection.read ring record).1
        (connection.read ring record).2) ∧
    ((∀ fragment opener,
        connection.opener.openRecord ring record = (.ok ⟨.handshake, fragment⟩, opener) →
          NoReturn ring connection.sending (wholeMessages fragment).length) →
      SendingDelivered ring connection (connection.read ring record).1
        (connection.read ring record).2 →
      ∀ fragment opener,
        connection.opener.openRecord ring record = (.ok ⟨.handshake, fragment⟩, opener) →
          connection.Undisturbed ring fragment) := by
  constructor
  · intro h
    by_cases hhandshake : ∃ fragment opener,
        connection.opener.openRecord ring record = (.ok ⟨.handshake, fragment⟩, opener)
    · obtain ⟨fragment, opener, hopen⟩ := hhandshake
      rw [read_handshake hopen]
      exact postHandshake_delivered complete { connection with opener } fragment
        (h fragment opener hopen)
    · refine .inl (read_sending_of_other fun fragment opener hopen => ?_)
      exact hhandshake ⟨fragment, opener, hopen⟩
  · intro hreturn h fragment opener hopen
    rw [read_handshake hopen] at h
    exact undisturbed_of_delivered complete { connection with opener } fragment
      (hreturn fragment opener hopen) h

/-! ### Admissible messages -/

/-- The fields of a NewSessionTicket, with a ticket in it. -/
def TicketGrammar (body : Bytes) : Prop :=
  ∃ (lifetime ageAdd : UInt32) (nonce ticket extensions : Bytes),
    body = beBytes 4 lifetime.toNat ++ (beBytes 4 ageAdd.toNat ++ (prefixed 1 nonce ++
      (prefixed 2 ticket ++ prefixed 2 extensions))) ∧
    nonce.length < 2 ^ 8 ∧ ticket.length < 2 ^ 16 ∧ extensions.length < 2 ^ 16 ∧ ticket ≠ []

/-- A message that may follow a handshake. The body of a ticket matters where there is a
resumption secret to use it with. -/
def Admissible (connection : Connection) (message : Message) : Prop :=
  message.typ = .keyUpdate ∨ message.typ = .newSessionTicket ∧
    (connection.resumptionMaster ≠ [] → TicketGrammar message.body)

/-- A session is made of exactly the bodies with the fields of a ticket. -/
theorem sessionFrom_iff {ring : Ring} {connection : Connection} {body : Bytes} :
    (∃ session, connection.sessionFrom ring body = .ok session) ↔ TicketGrammar body := by
  simp only [sessionFrom, wire, bind_eq_ok, mapErr_eq_ok, refuse_eq_ok]
  constructor
  · intro h
    obtain ⟨_, ⟨lifetime, r₁⟩, hlifetime, ⟨ageAdd, r₂⟩, hageAdd, ⟨nonce, r₃⟩, hnonce, ⟨ticket,
      r₄⟩, hticket, ⟨extensions, r₅⟩, hextensions, _, hfinish, _, hne, -⟩ := h
    obtain ⟨hrest₃, hnonceLen⟩ := Reader.vectorU8_iff.mp hnonce
    obtain ⟨hrest₄, hticketLen⟩ := Reader.vectorU16_iff.mp hticket
    obtain ⟨hrest₅, hextensionsLen⟩ := Reader.vectorU16_iff.mp hextensions
    have hend : r₅.rest = [] := Reader.finish_eq_ok.mp hfinish
    have hbody : body = beBytes 4 lifetime.toNat ++ r₁.rest := Reader.u32_iff.mp hlifetime
    rw [hend, List.append_nil] at hrest₅
    refine ⟨lifetime, ageAdd, nonce, ticket, extensions, ?_, hnonceLen, hticketLen,
      hextensionsLen, hne⟩
    rw [hbody, Reader.u32_iff.mp hageAdd, hrest₃, hrest₄, hrest₅]
  · intro h
    obtain ⟨lifetime, ageAdd, nonce, ticket, extensions, rfl, hnonce, hticket, hextensions, hne⟩
      := h
    exact ⟨_, (lifetime, ⟨_⟩), Reader.u32_iff.mpr rfl, (ageAdd, ⟨_⟩), Reader.u32_iff.mpr rfl,
      (nonce, ⟨_⟩), Reader.vectorU8_iff.mpr ⟨rfl, hnonce⟩,
      (ticket, ⟨_⟩), Reader.vectorU16_iff.mpr ⟨rfl, hticket⟩,
      (extensions, ⟨[]⟩), Reader.vectorU16_iff.mpr ⟨(List.append_nil _).symm, hextensions⟩,
      (), rfl, (), hne, rfl⟩

theorem accepts_iff_admissible {ring : Ring} {connection : Connection} {m : Message} :
    connection.Accepts ring m ↔ connection.Admissible m := by
  rw [Accepts, sessionFrom_iff, Admissible]
  refine or_congr_right (and_congr_right fun _ => ?_)
  by_cases hmaster : connection.resumptionMaster = [] <;> simp [hmaster]

/-- A fragment that succeeds has only admissible messages. -/
theorem postHandshakeLoop_admissible {ring : Ring} (lawful : ring.Lawful) {connection : Connection}
    {ms : List Message} {out : Bytes × List Session}
    (h : (connection.postHandshakeLoop ring ms).1 = .ok out) :
    ∀ m ∈ ms, connection.Admissible m := by
  induction ms generalizing connection out with
  | nil => simp
  | cons m rest ih =>
      have hstep : ∃ reply sessions after,
          connection.postHandshakeMessage ring m = (.ok (reply, sessions), after) ∧
          connection.Admissible m ∧ after.resumptionMaster = connection.resumptionMaster := by
        rcases postHandshakeMessage_eq lawful connection m with ⟨-, err, hrefused⟩ |
          ⟨-, haccepts, hticket⟩ | ⟨hupdate, -, hquiet⟩ | ⟨hrequests, record, -, hanswered⟩ |
          ⟨-, -, err, hrefused⟩
        · rw [postHandshakeLoop_error hrefused] at h
          cases h
        · exact ⟨_, _, _, hticket, accepts_iff_admissible.mp haccepts, rfl⟩
        · exact ⟨_, _, _, hquiet, .inl hupdate, rfl⟩
        · exact ⟨_, _, _, hanswered, .inl hrequests.1, rfl⟩
        · rw [postHandshakeLoop_error hrefused] at h
          cases h
      obtain ⟨reply, sessions, after, hmessage, hwell, hmaster⟩ := hstep
      rw [postHandshakeLoop_ok hmessage] at h
      obtain ⟨out', hrest, -⟩ := bind_eq_ok.mp h
      intro m' hm'
      rcases List.mem_cons.mp hm' with rfl | hm'
      · exact hwell
      · have hlater := ih hrest m' hm'
        rw [Admissible, hmaster] at hlater
        exact hlater

/-- A record of post-handshake messages is read only if every whole message in it is an update, or
a ticket; and on a connection that can use tickets, one with the fields of a ticket. A record with
any other whole message is an error. -/
theorem read_admissible {ring : Ring} (lawful : ring.Lawful) {connection : Connection}
    {record fragment : Bytes} {opener : Opener}
    (hopen : connection.opener.openRecord ring record = (.ok ⟨.handshake, fragment⟩, opener)) :
    ∃ (ms : List Message) (rest : Bytes), fragment = ms.flatMap (·.encoded) ++ rest ∧
      (∀ m ∈ ms, Framed m) ∧ completeHead rest = none ∧
      (∀ incoming, (connection.read ring record).1 = .ok incoming →
        ∀ m ∈ ms, connection.Admissible m) ∧
      ((∃ m ∈ ms, ¬ connection.Admissible m) →
        ∃ err, (connection.read ring record).1 = .error err) := by
  obtain ⟨-, hframed, hrest, hsplit⟩ := split_spec fragment
  have hok : ∀ incoming, (connection.read ring record).1 = .ok incoming →
      ∀ m ∈ wholeMessages fragment, connection.Admissible m := by
    intro incoming h
    rw [read_handshake hopen, postHandshake_eq] at h
    obtain ⟨out, hloop, -⟩ := bind_eq_ok.mp h
    -- Opening the record has left the resumption secret as it was.
    have hwell : ∀ m ∈ wholeMessages fragment, Admissible { connection with opener } m :=
      postHandshakeLoop_admissible lawful hloop
    exact hwell
  refine ⟨_, _, hsplit, hframed, hrest, hok, ?_⟩
  intro h
  obtain ⟨m, hm, hnot⟩ := h
  cases hresult : (connection.read ring record).1 with
  | error err => exact ⟨err, rfl⟩
  | ok incoming => exact absurd (hok incoming hresult m hm) hnot

/-- A connection on which nothing has been sent yet, for running the model. -/
def sample (resumptionMaster : Bytes) : Connection where
  aead := .aes128Gcm
  hash := .sha256
  suite := .tlsAes128GcmSha256
  sealer := ⟨directionKey Ring.sample_lawful .sha256 (List.replicate 32 1) .aes128Gcm, .startingAt 0⟩
  opener := ⟨directionKey Ring.sample_lawful .sha256 (List.replicate 32 2) .aes128Gcm, .startingAt 0⟩
  clientSecret := List.replicate 32 1
  serverSecret := List.replicate 32 2
  certificates := []
  resumed := false
  resumptionMaster := resumptionMaster

/-- The record its peer seals around a fragment. -/
def sampleRecord (fragment : Bytes) : Bytes :=
  match (sample []).receiving.emit Ring.sample .handshake fragment false with
  | some (record, _) => record
  | none => []

/-- Two requested updates in one record are both answered, the second under the first's key. -/
theorem read_sendingDelivered_updates :
    let record := sampleRecord (Message.encode .keyUpdate [1] ++ Message.encode .keyUpdate [1])
    SendingDelivered Ring.sample (sample [7]) ((sample [7]).read Ring.sample record).1
      ((sample [7]).read Ring.sample record).2 := by
  intro record
  refine (read_sendingDelivered_iff Ring.sample_complete (sample [7]) record).1 ?_
  intro fragment opener hopen hreaches hseq
  have hopens : ((sample [7]).opener.openRecord Ring.sample record).1
      = .ok ⟨.handshake, Message.encode .keyUpdate [1] ++ Message.encode .keyUpdate [1]⟩ := by
    decide +kernel
  rw [hopen] at hopens
  obtain rfl : fragment = Message.encode .keyUpdate [1] ++ Message.encode .keyUpdate [1] := by
    simpa using hopens
  have htypes : ∀ m ∈ wholeMessages (Message.encode .keyUpdate [1] ++ Message.encode .keyUpdate [1]),
      m.typ = .keyUpdate := by
    decide +kernel
  refine ⟨fun m hm => .inl (htypes m hm), .inr fun m hm => ?_⟩
  rw [htypes m hm]
  decide

/-- An update that is answered, and then a message that is refused: the answer is lost, and what
is written next goes out under a key the peer was never told of. -/
theorem read_sendingDelivered_lost :
    let record := sampleRecord (Message.encode .keyUpdate [1] ++ Message.encode .finished [])
    ((sample [7]).read Ring.sample record).1
      = .error (.unexpectedMessage "a post-handshake message" .finished) ∧
    ¬ SendingDelivered Ring.sample (sample [7]) ((sample [7]).read Ring.sample record).1
      ((sample [7]).read Ring.sample record).2 ∧
    (((sample [7]).read Ring.sample record).2.write Ring.sample [104, 105]).1.toOption.map
      (fun written => ((Opener.mk (sample [7]).sealer.key (sample [7]).sealer.seq).openRecord
        Ring.sample written).1) = some (.error .decrypt) := by
  intro record
  have hresult : ((sample [7]).read Ring.sample record).1
      = .error (.unexpectedMessage "a post-handshake message" .finished) := by
    decide +kernel
  have hmoved : ((sample [7]).read Ring.sample record).2.sending ≠ (sample [7]).sending := by
    decide +kernel
  refine ⟨hresult, ?_, by decide +kernel⟩
  intro h
  rcases h with hsame | ⟨n, reply, -, hok⟩
  · exact hmoved hsame
  · rw [hresult] at hok
    cases hok

/-- A ticket with all its fields, sent to a connection that can use it. -/
theorem read_admissible_ticket :
    let body : Bytes := [0, 0, 0, 1, 0, 0, 0, 2, 0, 0, 1, 9, 0, 0]
    let record := sampleRecord (Message.encode .newSessionTicket body)
    (∃ incoming, ((sample [7]).read Ring.sample record).1 = .ok incoming) ∧
    ∃ (ms : List Message) (rest : Bytes),
      Message.encode .newSessionTicket body = ms.flatMap (·.encoded) ++ rest ∧
      (∀ m ∈ ms, Framed m) ∧ completeHead rest = none ∧
      ∀ m ∈ ms, (sample [7]).Admissible m := by
  intro body record
  have hopen : (sample [7]).opener.openRecord Ring.sample record
      = (.ok ⟨.handshake, Message.encode .newSessionTicket body⟩,
        ((sample [7]).opener.openRecord Ring.sample record).2) := by
    refine Prod.ext ?_ rfl
    decide +kernel
  have hread : ∃ incoming, ((sample [7]).read Ring.sample record).1 = .ok incoming :=
    toOption_isSome.mp (by decide +kernel)
  obtain ⟨incoming, hincoming⟩ := hread
  obtain ⟨ms, rest, hsplit, hframed, hrest, hok, -⟩ := read_admissible Ring.sample_lawful hopen
  exact ⟨⟨incoming, hincoming⟩, ms, rest, hsplit, hframed, hrest, hok incoming hincoming⟩

/-- Without a resumption secret a ticket of one byte is read as handled; and with one, so are an
update without a body and the start of a message that never ends. -/
theorem read_unparsed_ticket :
    ((sample []).read Ring.sample (sampleRecord (Message.encode .newSessionTicket [1]))).1
      = .ok .handled ∧
    ¬ TicketGrammar [1] ∧
    ((sample [7]).read Ring.sample (sampleRecord (Message.encode .keyUpdate []))).1
      = .ok .handled ∧
    ((sample [7]).read Ring.sample (sampleRecord [4, 0, 0, 9])).1 = .ok .handled := by
  refine ⟨by decide +kernel, ?_, by decide +kernel, by decide +kernel⟩
  intro h
  obtain ⟨lifetime, ageAdd, nonce, ticket, extensions, hbody, -⟩ := h
  have hlength := congrArg List.length hbody
  simp only [List.length_append, beBytes_length, List.length_singleton] at hlength
  omega

end Connection

end RustyTls
