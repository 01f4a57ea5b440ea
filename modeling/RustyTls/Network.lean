import RustyTls.Delivery

/-!
# RustyTls.Network

A client and a server with a queue of records in each direction.

`Delivers` takes the first record of one queue to its end, which reads it and answers into the
other; a `Run` is any number of deliveries in any order. Both ends put change_cipher_spec records
between the others, and `carried` is what a queue holds besides them. `deliver` runs the model.
-/

namespace RustyTls

open Core

/-- A client and a server, the records on their way between them, oldest first, and the messages
that each has handled. -/
structure Network where
  client : Client.ClientHandshake
  server : Server.ServerHandshake
  toServer : List Bytes
  toClient : List Bytes
  clientLog : List (Endpoint.Taken Client.State)
  serverLog : List (Endpoint.Taken Server.State)

/-- The records that a call sends. -/
def sentBy {ε : Type} : Except ε Bytes → List Bytes
  | .ok reply => records reply
  | .error _ => []

/-- What a client answers with fits one record. -/
structure Client.FitsRecord (result : Except ClientError Bytes) : Prop where
  flight : ¬ Client.TooLong result
  hello : ∀ hello, result = .ok (plaintextRecord .handshake 0x0303 hello) →
    hello.length ≤ maxFragmentLen

namespace Network

/-- A client has sent its first record, and the server waits for it. -/
def opened (client : Client.ClientHandshake) (record : Bytes) : Network where
  client := client
  server := .new
  toServer := [record]
  toClient := []
  clientLog := []
  serverLog := []

/-- One record reaches its end, which reads it with working randomness and answers with flights
that fit a record. A handshake that is finished reads no more. -/
inductive Delivers (ring : Ring) (client : Client.ClientConfig) (server : Server.ServerConfig) :
    Network → Network → Prop
  | toServer {network : Network} {record : Bytes} {rest : List Bytes} {entropy : Entropy}
      {result : Except Server.ServerError Bytes} {next : Server.ServerHandshake} :
      network.toServer = record :: rest → network.server.isFinished = false →
      entropy.Works ring →
      network.server.readRecord ring entropy server record = (result, next) →
      ¬ Server.TooLong result →
      Delivers ring client server network { network with
        server := next
        toServer := rest
        toClient := network.toClient ++ sentBy result
        serverLog := network.serverLog ++
          (Server.endpoint ring server).recordSteps entropy network.server record }
  | toClient {network : Network} {record : Bytes} {rest : List Bytes} {entropy : Entropy}
      {result : Except ClientError Bytes} {next : Client.ClientHandshake} :
      network.toClient = record :: rest → network.client.isFinished = false →
      entropy.Works ring →
      network.client.readRecord ring entropy client record = (result, next) →
      Client.FitsRecord result →
      Delivers ring client server network { network with
        client := next
        toClient := rest
        toServer := network.toServer ++ sentBy result
        clientLog := network.clientLog ++
          (Client.endpoint ring client).recordSteps entropy network.client record }

/-- A number of records reach their ends, in any order that keeps each direction's. -/
inductive Run (ring : Ring) (client : Client.ClientConfig) (server : Server.ServerConfig)
    (start : Network) : Nat → Network → Prop
  | start : Run ring client server start 0 start
  | step {n : Nat} {network network' : Network} : Run ring client server start n network →
      Delivers ring client server network network' →
      Run ring client server start (n + 1) network'

/-- Nothing is left to deliver. -/
def Quiet (network : Network) : Prop :=
  (network.toServer = [] ∨ network.server.isFinished = true) ∧
    (network.toClient = [] ∨ network.client.isFinished = true)

/-! ### Queues -/

/-- The record that both ends send for the sake of middleboxes. -/
def changeCipherSpecRecord : Bytes := plaintextRecord .changeCipherSpec 0x0303 [0x01]

/-- The records of a queue that carry messages. -/
def carried (queue : List Bytes) : List Bytes := queue.filter (· ≠ changeCipherSpecRecord)

theorem carried_append (queue queue' : List Bytes) :
    carried (queue ++ queue') = carried queue ++ carried queue' := List.filter_append ..

theorem carried_of_ne {record : Bytes} (h : record ≠ changeCipherSpecRecord)
    (queue : List Bytes) : carried (record :: queue) = record :: carried queue :=
  List.filter_cons_of_pos (by simpa using h)

theorem carried_cons {record : Bytes} (h : record.headD 0 ≠ changeCipherSpec)
    (queue : List Bytes) : carried (record :: queue) = record :: carried queue := by
  refine carried_of_ne ?_ queue
  intro heq
  obtain rfl := heq
  exact h rfl

theorem carried_changeCipherSpec (queue : List Bytes) :
    carried (changeCipherSpecRecord :: queue) = carried queue := by
  simp [carried]

theorem whole_changeCipherSpecRecord : Whole changeCipherSpecRecord :=
  whole_plaintextRecord _ _ (by decide)

theorem plaintextRecord_carries (version : UInt16) (fragment : Bytes) :
    (plaintextRecord .handshake version fragment).headD 0 ≠ changeCipherSpec := by
  simp [plaintextRecord, ContentType.asU8, changeCipherSpec]

theorem sealed_carries {ring : Ring} {key : DirectionKey} {fragment record : Bytes}
    (h : SealedUnder ring key fragment record) : record.headD 0 ≠ changeCipherSpec := by
  rw [h.outer]
  decide

/-- The records of a flight, with or without a change_cipher_spec in it. -/
theorem sentBy_flight {ε : Type} {hello record : Bytes} (hhello : Whole hello)
    (hcarries : hello.headD 0 ≠ changeCipherSpec) (hrecord : Whole record)
    (hcarries' : record.headD 0 ≠ changeCipherSpec) (ccs : Bool) :
    carried (sentBy (.ok (hello ++ (if ccs then changeCipherSpecRecord else []) ++ record) :
        Except ε Bytes)) = [hello, record] ∧
      (sentBy (.ok (hello ++ (if ccs then changeCipherSpecRecord else []) ++ record) :
        Except ε Bytes)).length = if ccs then 3 else 2 := by
  cases ccs with
  | true =>
      simp only [if_true, sentBy, List.append_assoc]
      rw [records_append hhello, records_append whole_changeCipherSpecRecord,
        records_single hrecord, carried_cons hcarries, carried_changeCipherSpec,
        carried_cons hcarries']
      exact ⟨rfl, rfl⟩
  | false =>
      simp only [Bool.false_eq_true, if_false, sentBy, List.append_nil]
      rw [records_append hhello, records_single hrecord, carried_cons hcarries,
        carried_cons hcarries']
      exact ⟨rfl, rfl⟩

/-! ### Running the model -/

instance (network : Network) : Decidable network.Quiet :=
  inferInstanceAs (Decidable ((_ ∨ _) ∧ (_ ∨ _)))

/-- An end of the network. -/
inductive End
  | client
  | server
  deriving Repr, DecidableEq

/-- Deliver the next record to an end, for running the model. -/
def deliver (ring : Ring) (client : Client.ClientConfig) (server : Server.ServerConfig)
    (entropy : Entropy) (network : Network) : End → Option Network
  | .server =>
      match network.toServer, network.server.isFinished,
        network.server.readRecord ring entropy server (network.toServer.headD []) with
      | _ :: rest, false, (.ok reply, next) => some { network with
          server := next
          toServer := rest
          toClient := network.toClient ++ records reply
          serverLog := network.serverLog ++ (Server.endpoint ring server).recordSteps entropy
            network.server (network.toServer.headD []) }
      | _, _, _ => none
  | .client =>
      match network.toClient, network.client.isFinished,
        network.client.readRecord ring entropy client (network.toClient.headD []) with
      | _ :: rest, false, (.ok reply, next) =>
          if reply.length ≤ headerLen + maxFragmentLen then
            some { network with
              client := next
              toClient := rest
              toServer := network.toServer ++ records reply
              clientLog := network.clientLog ++ (Client.endpoint ring client).recordSteps entropy
                network.client (network.toClient.headD []) }
          else
            none
      | _, _, _ => none

theorem delivers_of_deliver {ring : Ring} {client : Client.ClientConfig}
    {server : Server.ServerConfig} {entropy : Entropy} (hworks : entropy.Works ring)
    {network network' : Network} {side : End}
    (h : deliver ring client server entropy network side = some network') :
    Delivers ring client server network network' := by
  cases side with
  | server =>
      simp only [deliver] at h
      split at h
      · next record rest reply next hqueue hwaits hread =>
          obtain rfl := Option.some.inj h
          rw [hqueue, List.headD_cons] at hread ⊢
          refine .toServer hqueue hwaits hworks hread ?_
          intro h
          obtain ⟨len, max, hlong⟩ := h
          cases hlong
      · cases h
  | client =>
      simp only [deliver] at h
      split at h
      · next record rest reply next hqueue hwaits hread =>
          split at h
          · next hlen =>
              obtain rfl := Option.some.inj h
              rw [hqueue, List.headD_cons] at hread ⊢
              refine .toClient hqueue hwaits hworks hread ⟨?_, ?_⟩
              · intro h
                obtain ⟨len, max, hlong⟩ := h
                cases hlong
              · intro hello hreply
                obtain rfl := Except.ok.inj hreply
                rw [plaintextRecord_length] at hlen
                omega
          · cases h
      · cases h

/-- Deliver one record after the other, each with the randomness of its turn. -/
def deliverAll (ring : Ring) (client : Client.ClientConfig) (server : Server.ServerConfig) :
    Network → List (Entropy × End) → Option Network
  | network, [] => some network
  | network, (entropy, side) :: rest => do
      let network ← network.deliver ring client server entropy side
      deliverAll ring client server network rest

theorem run_of_deliverAll {ring : Ring} {client : Client.ClientConfig}
    {server : Server.ServerConfig} {start : Network} : ∀ {turns : List (Entropy × End)}
      {network network' : Network} {n : Nat}, (∀ turn ∈ turns, turn.1.Works ring) →
      Run ring client server start n network →
      deliverAll ring client server network turns = some network' →
      Run ring client server start (n + turns.length) network' := by
  intro turns
  induction turns with
  | nil =>
      intro network network' n _ hrun h
      obtain rfl := Option.some.inj h
      exact hrun
  | cons turn rest ih =>
      intro network network' n hworks hrun h
      obtain ⟨entropy, side⟩ := turn
      rw [deliverAll, Option.bind_eq_bind, Option.bind_eq_some_iff] at h
      obtain ⟨next, hdeliver, hrest⟩ := h
      have hstep := hrun.step (delivers_of_deliver (hworks _ List.mem_cons_self) hdeliver)
      have hlength : n + (rest.length + 1) = n + 1 + rest.length := by omega
      rw [List.length_cons, hlength]
      exact ih (fun turn hmem => hworks turn (List.mem_cons_of_mem _ hmem)) hstep hrest

end Network

end RustyTls
