import RustyTls.ChainIdentity
import RustyTls.CodecInverse
import RustyTls.Views

/-!
# RustyTls.ActiveNetwork

Two ends with one transcript, when the network is the adversary: the records that each of them has
read are arbitrary.

Equal transcripts are equal lists of messages (`octets_inj`), and the hellos among them decide the
rest (`SameHellos`): one suite, one group and one secret, which are those the two configurations come
to, whatever the network put in the way of the hellos. A first hello is only there as a digest, so
the two ends' may differ where they collide under the hash, and the results exhibit the two.
-/

namespace RustyTls

open Core

namespace Core

/-- Two inputs that `f` does not tell apart. -/
def Collides {α β : Type} (f : α → β) (a b : α) : Prop := a ≠ b ∧ f a = f b

theorem eq_or_collides {α β : Type} {f : α → β} {a b : α} (h : f a = f b) :
    a = b ∨ Collides f a b := by
  by_cases heq : a = b
  · exact .inl heq
  · exact .inr ⟨heq, h⟩

end Core

/-! ### What two configurations come to -/

/-- The suite of a handshake: the first of the server's that the client has. -/
def commonSuite (client : Client.ClientConfig) (server : Server.ServerConfig) :
    Option CipherSuite :=
  server.cipherSuites.find? (· ∈ client.cipherSuites)

/-- The group of a handshake: the client's first if the server has it, else the first of the
server's that the client has. -/
def commonGroup (client : Client.ClientConfig) (server : Server.ServerConfig) :
    Option NamedGroup := do
  let group ← client.groups.head?
  if group ∈ server.groups then
    some group
  else
    server.groups.find? (· ∈ client.groups)

section Sent

variable {ring : Ring} {client : Client.ClientConfig} {server : Server.ServerConfig}
  {awaiting : Client.Awaiting} {front encoded binder : Bytes}

/-- The suite that a server selects for a hello of the client. -/
theorem suite_sent (client : Client.ClientConfig) (server : Server.ServerConfig)
    (awaiting : Client.Awaiting) (binder : Bytes) :
    server.cipherSuites.find? (fun suite =>
      (awaiting.hello client binder).cipherSuites.contains suite.code)
        = commonSuite client server := by
  rw [commonSuite]
  congr 1
  funext suite
  have hmem : suite.code ∈ client.cipherSuites.map (·.code) ↔ suite ∈ client.cipherSuites :=
    ⟨Server.mem_of_code_mem, fun h => List.mem_map_of_mem h⟩
  simp only [Client.Awaiting.hello, Client.sentHello, Client.plainHello, List.contains_eq_mem, hmem]

/-- The group that a server asks the client for. -/
theorem group_sent (client : Client.ClientConfig) (server : Server.ServerConfig) :
    server.groups.find? (fun group => (client.groups.map (·.asU16)).contains group.asU16)
      = server.groups.find? (· ∈ client.groups) := by
  congr 1
  funext group
  have hmem : group.asU16 ∈ client.groups.map (·.asU16) ↔ group ∈ client.groups :=
    List.mem_map_of_injective fun _ _ h => NamedGroup.asU16_injective h
  simp only [List.contains_eq_mem, hmem]

/-- The share that a hello of the client brings. -/
theorem shares_sent (complete : ring.Complete)
    (hoffers : Client.Offers ring client awaiting front encoded binder) :
    find (awaiting.hello client binder).extensions ExtensionType.keyShare
        = some (Client.keyShareData awaiting.kx) ∧
      Server.clientKeyShares (Client.keyShareData awaiting.kx)
        = .ok [(awaiting.kx.group.asU16, awaiting.kx.publicKey)] ∧
      Server.offeredShares (awaiting.hello client binder)
        = .ok [(awaiting.kx.group.asU16, awaiting.kx.publicKey)] := by
  have hfind : find (awaiting.hello client binder).extensions ExtensionType.keyShare
      = some (Client.keyShareData awaiting.kx) := Client.find_keyShare_base client awaiting.kx _
  have hshares :=
    Server.clientKeyShares_sent (complete.publicKey_length _ _ _ hoffers.share)
  refine ⟨hfind, hshares, ?_⟩
  rw [Server.offeredShares, hfind]
  simp only [hshares, mapErr_ok]

end Sent

/-! ### One transcript, two ends -/

/-- The hellos of a client and of a server are the same, and so is what follows from them. -/
structure SameHellos (ring : Ring) (client : Client.ClientConfig) (server : Server.ServerConfig)
    (start awaiting : Client.Awaiting) (reply : Client.Reply) (answer : Server.Answer) : Prop where
  hello : ∃ binder, answer.hello = awaiting.hello client binder ∧
    Client.Offers ring client awaiting (octets answer.front) answer.message.encoded binder
  /-- The server took in no hello before it but the one the client started with. -/
  before : octets answer.before = if awaiting.retried then start.clientHello else []
  serverHello : reply.message = answer.serverHelloMessage ∧ reply.hello = answer.serverHello
  suite : commonSuite client server = some answer.selected.suite
  group : commonGroup client server = some answer.selected.group ∧
    awaiting.kx.group = answer.selected.group
  secret : reply.sharedSecret = answer.draw.sharedSecret
  resumed : reply.session.isSome = answer.selected.psk.isSome

/-- The two first hellos of a handshake with a retry are a collision of the hash. -/
def FirstHellosCollide (ring : Ring) (start : Client.Awaiting) (answer : Server.Answer) : Prop :=
  ∃ first, answer.before = [first] ∧
    Collides (answer.selected.hash.hash ring) start.clientHello first.encoded

theorem Hash.len_injective {hash hash' : Hash} (h : hash.len = hash'.len) : hash = hash' := by
  cases hash <;> cases hash' <;> first | rfl | simp [Hash.len] at h

theorem Hash.eq_of_hash {ring : Ring} (lawful : ring.Lawful) {hash hash' : Hash} {a b : Bytes}
    (h : hash.hash ring a = hash'.hash ring b) : hash = hash' := by
  have hlen := hash.hash_length lawful a
  rw [h, hash'.hash_length lawful] at hlen
  exact Hash.len_injective hlen.symm

section Hellos

variable {ring : Ring} {client : Client.ClientConfig} {server : Server.ServerConfig}
  {entropy : Entropy} {record : Bytes} {start awaiting : Client.Awaiting} {reply : Client.Reply}
  {flight : List Message} {negotiated : Client.Negotiated} {answer : Server.Answer}
  {answered : Server.Negotiated}

/-- The hash of a first hello stands where no hello can. -/
theorem hellos_unmixed {front front' flight flight' : List Message} {hello hello' : Message}
    (hhello : hello.typ = .clientHello) (hhello' : hello'.typ = .clientHello)
    (hfront : front = [] ∨ ∃ hash first request, front = [hashMessage ring hash first, request])
    (hfront' : front' = [] ∨ ∃ hash first request, front' = [hashMessage ring hash first, request])
    (h : front ++ hello :: flight = front' ++ hello' :: flight') :
    front = front' ∧ hello = hello' ∧ flight = flight' := by
  rcases hfront with rfl | ⟨hash, first, request, rfl⟩ <;>
    rcases hfront' with rfl | ⟨hash', first', request', rfl⟩
  · obtain ⟨hsame, hrest⟩ := List.cons.inj h
    exact ⟨rfl, hsame, hrest⟩
  · obtain ⟨hsame, -⟩ := List.cons.inj h
    rw [hsame] at hhello
    cases hhello
  · obtain ⟨hsame, -⟩ := List.cons.inj h
    rw [← hsame] at hhello'
    cases hhello'
  · obtain ⟨hhash, hrest⟩ := List.cons.inj h
    obtain ⟨hrequest, hrest⟩ := List.cons.inj hrest
    obtain ⟨hsame, hrest⟩ := List.cons.inj hrest
    exact ⟨by rw [hhash, hrequest], hsame, hrest⟩

theorem Client.Origin.front_eq {before front : List Message}
    (h : Client.Origin ring client start awaiting before front) :
    front = [] ∨ ∃ hash first request, front = [hashMessage ring hash first, request] := by
  cases h with
  | direct _ => exact .inl rfl
  | retried _ _ _ _ _ => exact .inr ⟨_, _, _, rfl⟩

theorem Server.Selects.front_eq {hello : ClientHello} {selected : Server.Selected}
    {before front : List Message} (h : Server.Selects ring server hello selected before front) :
    front = [] ∨ ∃ hash first request, front = [hashMessage ring hash first, request] := by
  cases h with
  | direct _ _ _ => exact .inl rfl
  | retried _ _ _ _ _ _ => exact .inr ⟨_, _, _, rfl⟩

/-- The secret that a server has agreed on for a share of the client's is the client's. -/
theorem secret_agreed (complete : ring.Complete) {front encoded binder : Bytes}
    (hoffers : Client.Offers ring client awaiting front encoded binder)
    (hkeyed : Client.Keyed ring client awaiting reply flight negotiated)
    (hanswers : Server.AnswersHello ring server answer answered)
    (hello : reply.hello = answer.serverHello)
    (hgroup : awaiting.kx.group = answer.selected.group)
    (hpeer : answer.selected.peerKey = awaiting.kx.publicKey) :
    reply.sharedSecret = answer.draw.sharedSecret := by
  obtain ⟨hdrawn, hpublic⟩ := KeyExchange.generate_inv hanswers.completed.kx
  obtain ⟨data, hdata, hshare⟩ := hkeyed.share
  rw [hello] at hdata
  obtain rfl : _ = data := Option.some.inj hdata
  rw [Client.serverKeyShare_sent (complete.publicKey_length _ _ _ hpublic)] at hshare
  obtain ⟨-, hkey⟩ := Prod.mk.inj (Except.ok.inj hshare)
  have hmine := hkeyed.agreed
  have hits := hanswers.completed.agreed
  have hsent := hoffers.share
  rw [KeyExchange.agree, okOr_eq_ok, ← hkey] at hmine
  rw [KeyExchange.agree, okOr_eq_ok, hpeer] at hits
  rw [hdrawn, ← hgroup] at hpublic hits
  obtain ⟨shared, hshared, hshared'⟩ := complete.agrees _ _ _ _ _ hsent hpublic
  exact Option.some.inj ((hmine.symm.trans hshared).trans (hshared'.symm.trans hits))

/-- Both ends resume, or neither does. -/
theorem resumed_eq (hkeyed : Client.Keyed ring client awaiting reply flight negotiated)
    (hello : reply.hello = answer.serverHello) :
    reply.session.isSome = answer.selected.psk.isSome := by
  have hsession := hkeyed.session
  rw [hello] at hsession
  cases hpsk : answer.selected.psk with
  | none =>
      have hfind : find answer.serverHello.extensions ExtensionType.preSharedKey = none := by
        rw [Server.Answer.serverHello, hpsk]
        rfl
      simp only [Client.acceptedSession, hfind] at hsession
      rw [← Except.ok.inj hsession]
      rfl
  | some psk =>
      cases hnone : reply.session with
      | some session => rfl
      | none =>
          rw [hnone] at hsession
          have hfind : ∃ data, find answer.serverHello.extensions ExtensionType.preSharedKey
              = some data := by
            rw [Server.Answer.serverHello, hpsk]
            exact ⟨_, rfl⟩
          obtain ⟨data, hfind⟩ := hfind
          simp only [Client.acceptedSession, hfind, bind_eq_ok] at hsession
          obtain ⟨_, -, _, -, _, -, hash, -, _, -, heq⟩ := hsession
          cases heq

/-- A server without a retry has selected from the one hello it read. -/
theorem selects_direct (complete : ring.Complete) {front encoded binder : Bytes}
    (hoffers : Client.Offers ring client awaiting front encoded binder)
    {selected : Server.Selected} {before : List Message}
    (h : Server.Selects ring server (awaiting.hello client binder) selected before []) :
    before = [] ∧ commonSuite client server = some selected.suite ∧
      awaiting.kx.group ∈ server.groups ∧ awaiting.kx.group = selected.group ∧
      selected.peerKey = awaiting.kx.publicKey := by
  cases h with
  | direct hsuite hoffered hchosen =>
      obtain ⟨-, -, hshares⟩ := shares_sent complete hoffers
      obtain rfl := Except.ok.inj (hshares.symm.trans hoffered)
      rw [Server.chooseShare_sent] at hchosen
      rw [suite_sent] at hsuite
      by_cases hgroup : awaiting.kx.group ∈ server.groups
      · rw [if_pos hgroup] at hchosen
        obtain ⟨hsame, hkey⟩ := Prod.mk.inj (Option.some.inj hchosen)
        exact ⟨rfl, hsuite, hgroup, hsame, hkey.symm⟩
      · rw [if_neg hgroup] at hchosen
        cases hchosen

/-- What a first hello of the client's leaves the server without. -/
theorem withoutShare_sent (complete : ring.Complete) {encoded binder : Bytes}
    (hoffers : Client.Offers ring client start [] encoded binder)
    (hsuites : client.cipherSuites ≠ []) {first : Message} {suite : CipherSuite}
    {group : NamedGroup}
    (h : Server.WithoutShare server first (start.hello client binder) suite group) :
    commonSuite client server = some suite ∧ start.kx.group ∉ server.groups ∧
      server.groups.find? (· ∈ client.groups) = some group := by
  obtain ⟨shares, hoffered, hnone⟩ := h.noShare
  obtain ⟨data, groups, hdata, hgroups, hgroup⟩ := h.group
  obtain ⟨-, -, hshares⟩ := shares_sent complete hoffers
  obtain rfl := Except.ok.inj (hshares.symm.trans hoffered)
  have hfind : find (start.hello client binder).extensions ExtensionType.supportedGroups
      = some (Client.supportedGroupsData client.groups) :=
    Client.find_supportedGroups client start.kx _
  obtain rfl := Option.some.inj (hfind.symm.trans hdata)
  rw [Server.clientSupportedGroups_sent (hoffers.groups_short hsuites)] at hgroups
  obtain rfl := Except.ok.inj hgroups
  refine ⟨(suite_sent client server start binder).symm.trans h.suite, ?_, ?_⟩
  · intro hmem
    rw [Server.chooseShare_sent, if_pos hmem] at hnone
    cases hnone
  · rw [← group_sent]
    exact hgroup

/-- A server after a retry has selected from the hello the client started with, unless the two
first hellos collide. -/
theorem selects_retried (complete : ring.Complete) {encoded binder front encoded' binder' : Bytes}
    (hfirst : Client.Offers ring client start [] encoded binder)
    (hoffers : Client.Offers ring client awaiting front encoded' binder')
    (hsuites : client.cipherSuites ≠ []) {selected : Server.Selected} {before : List Message}
    (hframed : ∀ m ∈ before, Framed m) {hash : Hash} {request : Message}
    (h : Server.Selects ring server (awaiting.hello client binder') selected before
      [hashMessage ring hash start.clientHello, request]) :
    ∃ first, before = [first] ∧
      (Collides (selected.hash.hash ring) start.clientHello first.encoded ∨
        first.encoded = start.clientHello ∧ commonSuite client server = some selected.suite ∧
        start.kx.group ∉ server.groups ∧
        server.groups.find? (· ∈ client.groups) = some selected.group ∧
        awaiting.kx.group = selected.group ∧ selected.peerKey = awaiting.kx.publicKey) := by
  generalize hfront : [hashMessage ring hash start.clientHello, request] = front' at h
  cases h with
  | direct _ _ _ => cases hfront
  | @retried first opening data shares hwithout hrandom hid hdata hshares hpeer =>
      refine ⟨first, rfl, ?_⟩
      obtain ⟨hhash, -⟩ := List.cons.inj hfront
      have hdigest : hash.hash ring start.clientHello = selected.hash.hash ring first.encoded :=
        congrArg Message.body hhash
      obtain rfl := Hash.eq_of_hash complete.toLawful hdigest
      rcases eq_or_collides hdigest with hsame | hcollides
      · right
        have hmessage : [first] = [start.message client binder] := by
          refine octets_inj hframed (by simpa using hfirst.framed) ?_
          rw [← List.nil_append [start.message client binder], Client.Offers.octets_eq hfirst,
            octets_cons, octets_nil, List.append_nil, hsame]
        obtain rfl := List.singleton_inj.mp hmessage
        obtain rfl : opening = start.hello client binder :=
          Except.ok.inj (hwithout.parsed.symm.trans (hfirst.parsed hsuites))
        obtain ⟨hsuite, hgroup, hasked⟩ := withoutShare_sent complete hfirst hsuites hwithout
        obtain ⟨hfind, hsent, -⟩ := shares_sent complete hoffers
        obtain rfl := Option.some.inj (hfind.symm.trans hdata)
        obtain rfl := Except.ok.inj (hsent.symm.trans hshares)
        rw [Server.shareFor_sent] at hpeer
        by_cases hsameGroup : awaiting.kx.group = selected.group
        · rw [if_pos hsameGroup] at hpeer
          exact ⟨hsame.symm, hsuite, hgroup, hasked, hsameGroup, (Option.some.inj hpeer).symm⟩
        · rw [if_neg hsameGroup] at hpeer
          cases hpeer
      · exact .inl hcollides

/-- A client waits with a second hello exactly when it accepted something before. -/
theorem Client.Opened.retried_eq {before : List Message}
    (hstart : Client.start ring entropy client = .ok (⟨.awaitServerHello start, []⟩, record))
    (h : Client.Opened ring client start before awaiting) :
    client.groups.head? = some start.kx.group ∧ awaiting.retried = !before.isEmpty := by
  obtain ⟨group, kx, _, _, _, hgroup, -, hkx, -, heq, -⟩ := Client.start_inv hstart
  obtain rfl := Client.State.awaitServerHello.inj (congrArg Reassembling.state heq)
  refine ⟨by rw [hgroup, (KeyExchange.generate_inv hkx).1], ?_⟩
  cases h with
  | direct => rfl
  | retried _ _ _ _ _ _ => rfl

/-- Two ends with one transcript have the same hellos, unless their first hellos collide. -/
theorem sameHellos (complete : ring.Complete) (hshares : ring.ShareLengths)
    (hshort : Client.ShortHellos client)
    (hstart : Client.start ring entropy client = .ok (⟨.awaitServerHello start, []⟩, record))
    {before heard sent : List Message} (hopened : Client.Opened ring client start before awaiting)
    (hkeyed : Client.Keyed ring client awaiting reply flight negotiated)
    (hframed : ∀ m ∈ before ++ reply.message :: heard, Framed m)
    (hanswers : Server.AnswersHello ring server answer answered)
    (hheard : ∀ m ∈ answer.before ++ [answer.message], Framed m) (hsent : ∀ m ∈ sent, Framed m)
    (h : awaiting.clientHello ++ reply.message.encoded ++ octets heard
      = octets (answer.hellos ++ sent)) :
    heard = sent ∧
      (SameHellos ring client server start awaiting reply answer ∨
        FirstHellosCollide ring start answer) := by
  obtain ⟨hhead, hretried⟩ := hopened.retried_eq hstart
  obtain ⟨_, encoded, binder, hfirst, horigin⟩ :=
    (Client.Opened.direct : Client.Opened ring client start [] start).offers complete.toLawful
      hshares hshort hstart
  cases horigin
  obtain ⟨front, encoded', binder', hoffers, horigin⟩ :=
    hopened.offers complete.toLawful hshares hshort hstart
  have hsuites : client.cipherSuites ≠ [] := List.ne_nil_of_mem hkeyed.accepted.offered
  have hfront : ∀ m ∈ front, Framed m := by
    cases horigin with
    | direct _ => simp
    | @retried request _ _ hash _ _ _ _ _ =>
        have hrequest : Framed request := hframed request (by simp)
        simpa using ⟨hashMessage_framed complete.toLawful hash start.clientHello, hrequest⟩
  have hlists : front ++ awaiting.message client binder' :: reply.message :: heard
      = answer.front ++ answer.message :: answer.serverHelloMessage :: sent := by
    have hmine : ∀ m ∈ front ++ awaiting.message client binder' :: reply.message :: heard,
        Framed m := by
      refine List.forall_mem_append.mpr ⟨hfront, List.forall_mem_cons.mpr ⟨hoffers.framed, ?_⟩⟩
      exact (List.forall_mem_append.mp hframed).2
    have hits : ∀ m ∈ answer.hellos ++ sent, Framed m :=
      List.forall_mem_append.mpr ⟨hanswers.framed_hellos complete (hheard _ (by simp)), hsent⟩
    have hsame : octets (front ++ awaiting.message client binder' :: reply.message :: heard)
        = octets (answer.hellos ++ sent) := by
      rw [← h, ← hoffers.octets_eq]
      simp [octets_append]
    rw [octets_inj hmine hits hsame, Server.Answer.hellos]
    simp
  obtain ⟨hfronts, hmessage, hrest⟩ := hellos_unmixed rfl hanswers.typ horigin.front_eq
    hanswers.selects.front_eq hlists
  obtain ⟨hreply, hafter⟩ := List.cons.inj hrest
  have hello : answer.hello = awaiting.hello client binder' := by
    have hparsed := hanswers.parsed
    rw [← hmessage] at hparsed
    exact Except.ok.inj (hparsed.symm.trans (hoffers.parsed hsuites))
  have hserverHello : reply.hello = answer.serverHello := by
    have hparsed := hkeyed.accepted.parsed
    rw [hreply] at hparsed
    exact Except.ok.inj (hparsed.symm.trans (hanswers.parse_serverHello complete))
  have hoffered : Client.Offers ring client awaiting (octets answer.front) answer.message.encoded
      binder' := by
    have hencoded : answer.message.encoded = encoded' := by
      rw [← hmessage, hoffers.encodes]
      rfl
    rw [← hfronts, hencoded]
    exact hoffers
  have hselects := hanswers.selects
  rw [hello, ← hfronts] at hselects
  refine ⟨hafter, ?_⟩
  cases horigin with
  | direct heq =>
      obtain ⟨hbefore, hsuite, hmem, hgroup, hpeer⟩ := selects_direct complete hoffers hselects
      refine .inl ⟨⟨binder', hello, hoffered⟩, ?_, ⟨hreply, hserverHello⟩, hsuite,
        ⟨?_, hgroup⟩, secret_agreed complete hoffers hkeyed hanswers hserverHello hgroup hpeer,
        resumed_eq hkeyed hserverHello⟩
      · rw [hbefore, hretried]
        rfl
      · rw [commonGroup, hhead, ← hgroup, heq]
        rw [heq] at hmem
        simp [hmem]
  | retried hok hmarked hasked hrandom hid =>
      obtain ⟨first, hbefore, hcollides | ⟨hsame, hsuite, hmem, hfind, hgroup, hpeer⟩⟩ :=
        selects_retried complete hfirst hoffers hsuites
          (fun m hm => hheard m (List.mem_append_left _ hm)) hselects
      · exact .inr ⟨first, hbefore, hcollides⟩
      · refine .inl ⟨⟨binder', hello, hoffered⟩, ?_, ⟨hreply, hserverHello⟩, hsuite,
          ⟨?_, hgroup⟩, secret_agreed complete hoffers hkeyed hanswers hserverHello hgroup hpeer,
          resumed_eq hkeyed hserverHello⟩
        · rw [hbefore, hretried, octets_cons, octets_nil, List.append_nil, hsame]
          rfl
        · rw [commonGroup, hhead]
          simp [hmem, hfind]

end Hellos

/-- A client and a server that have the same keys, from the same hellos and the same PSK, if any.
`log` is what the client has accepted so far: the hello it waited with and the reply to it are those
its own keys come from. -/
structure SameSession (ring : Ring) (client : Client.ClientConfig) (server : Server.ServerConfig)
    (start : Client.Awaiting) (log : List Message) (negotiated : Client.Negotiated)
    (answer : Server.Answer) (answered : Server.Negotiated) : Prop where
  hellos : ∃ before awaiting reply flight, log = before ++ reply.message :: flight ∧
    Client.Opened ring client start before awaiting ∧
    Client.Keyed ring client awaiting reply flight negotiated ∧
    SameHellos ring client server start awaiting reply answer ∧
    reply.session.map (·.psk) = answer.selected.psk.map (·.psk)
  suite : negotiated.suite = answered.suite
  aead : negotiated.aead = answered.aead
  hash : negotiated.hash = answered.hash
  clientSecret : negotiated.clientHandshakeSecret = answered.clientHandshakeSecret
  serverSecret : negotiated.serverHandshakeSecret
    = answer.draw.serverSecret ring answer.head answer.hello answer.selected
  master : negotiated.schedule.intoMaster ring = answered.master

section Sessions

variable {ring : Ring} {client : Client.ClientConfig} {server : Server.ServerConfig}
  {start awaiting : Client.Awaiting} {reply : Client.Reply} {before flight : List Message}
  {negotiated : Client.Negotiated} {answer : Server.Answer} {answered : Server.Negotiated}

/-- The transcript through the ServerHello is the server's. -/
theorem SameHellos.octets_eq {heard sent : List Message}
    (h : awaiting.clientHello ++ reply.message.encoded ++ octets heard
      = octets (answer.hellos ++ sent)) (hheard : heard = sent) :
    awaiting.clientHello ++ reply.message.encoded
      = answer.draw.hellos answer.head answer.hello answer.selected := by
  rw [octets_append, hheard] at h
  rw [← Server.Answer.octets_hellos]
  exact List.append_cancel_right h

/-- What the binders in an answered hello are over: the transcript as far as them. -/
def Server.Answer.Binds (answer : Server.Answer) (covered : Bytes) : Prop :=
  ∃ data offer truncated, find answer.hello.extensions ExtensionType.preSharedKey = some data ∧
    PresharedKeyOffer.parse data = .ok offer ∧
    offer.truncated answer.message.encoded = .ok truncated ∧
    covered = octets answer.front ++ truncated

/-- The PSKs that a client and a server have for one ticket are a collision of the binder of the
hello that was answered. -/
def BindersCollide (ring : Ring) (client : Client.ClientConfig) (answer : Server.Answer) : Prop :=
  ∃ resumption psk covered, client.resumption = some resumption ∧ answer.selected.psk = some psk ∧
    answer.Binds covered ∧
    Collides (fun key => pskBinder ring answer.selected.hash key
      (answer.selected.hash.hash ring covered)) resumption.session.psk psk.psk

/-- The binder of an offer of the client's is the one that a server finds in it. -/
theorem binders_sent (lawful : ring.Lawful) {front encoded binder : Bytes}
    (hoffers : Client.Offers ring client awaiting front encoded binder)
    (hsuites : client.cipherSuites ≠ []) {resumption : Client.Resumption}
    (hresumption : client.resumption = some resumption) {offer : PresharedKeyOffer}
    (hparse : PresharedKeyOffer.parse (identityBytes [Client.offeredIdentity resumption] ++
      binderBytes [binder]) = .ok offer) : offer.binders = [binder] := by
  obtain ⟨hdata, hfits⟩ := PresharedKeyOffer.parse_iff.mp hparse
  obtain ⟨hash, before, -, -, hbinder⟩ := hoffers.binds resumption hresumption
  have hlen : binder.length = hash.len := by
    rw [hbinder]
    exact pskBinder_length lawful hash _ _
  have hle := hash.len_le
  have hmem : (⟨ExtensionType.preSharedKey, identityBytes [Client.offeredIdentity resumption] ++
      binderBytes [binder]⟩ : Extension) ∈ (awaiting.hello client binder).extensions := by
    simp [Client.Awaiting.hello, Client.sentHello, Client.sentExtensions, hresumption]
  have hshort := Nat.lt_of_le_of_lt (extension_data_le hmem) (hoffers.fits hsuites).extensions.length
  have hidentities := hfits.identities
  have hbinders := hfits.binders
  simp only [identityBytes, prefixed_length, List.length_append] at hshort hidentities
  simp only [binderBytes, prefixed_length] at hshort hbinders
  obtain ⟨-, hsame⟩ := prefixed_append_inj (by omega) (by omega) hdata
  rw [binderBytes, binderBytes, ← List.append_nil (prefixed 2 _),
    ← List.append_nil (prefixed 2 (List.flatMap _ offer.binders))] at hsame
  obtain ⟨hlists, -⟩ := prefixed_append_inj (by omega) (by omega) hsame
  refine (flatMap_prefixed_inj (by decide) ?_ ?_ hlists).symm
  · intro b hb
    obtain rfl := List.mem_singleton.mp hb
    omega
  · intro b hb
    exact (hfits.binder b hb).1

/-- Without a PSK on the server's side there is none on the client's. -/
theorem SameHellos.psk_none (h : SameHellos ring client server start awaiting reply answer)
    (hpsk : answer.selected.psk = none) :
    reply.session.map (·.psk) = answer.selected.psk.map (·.psk) := by
  have hresumed := h.resumed
  rw [hpsk, Option.isSome_none, Option.isSome_eq_false_iff, Option.isNone_iff_eq_none] at hresumed
  rw [hresumed, hpsk]
  rfl

/-- A server that takes up the PSK of a hello of the client's has the client's PSK, or the binder
does not tell the two apart. -/
theorem SameHellos.psk_agreed (lawful : ring.Lawful)
    (h : SameHellos ring client server start awaiting reply answer)
    (hkeyed : Client.Keyed ring client awaiting reply flight negotiated)
    (hanswers : Server.AnswersHello ring server answer answered)
    (hhash : negotiated.hash = answer.selected.hash) :
    reply.session.map (·.psk) = answer.selected.psk.map (·.psk) ∨
      BindersCollide ring client answer := by
  obtain ⟨binder, hello, hoffers⟩ := h.hello
  have hsuites : client.cipherSuites ≠ [] := List.ne_nil_of_mem hkeyed.accepted.offered
  cases hpsk : answer.selected.psk with
  | none => exact .inl (by rw [h.psk_none hpsk, hpsk])
  | some psk =>
      obtain ⟨session, hsession⟩ : ∃ session, reply.session = some session := by
        rw [← Option.isSome_iff_exists, h.resumed, hpsk]
        rfl
      have haccepted := hkeyed.session
      rw [hsession] at haccepted
      obtain ⟨resumption, _, hresumption, rfl, -, -, hbound⟩ :=
        Client.acceptedSession_inv haccepted
      have htaken := hanswers.psk
      rw [hpsk] at htaken
      obtain ⟨_, offer, truncated, _, contents, binder', hpskAccepted⟩ :=
        Server.acceptPsk_inv htaken
      obtain ⟨data, hdata, hparse⟩ := hpskAccepted.parsed
      rw [hello, Client.Awaiting.hello, Client.sentHello, Client.find_preSharedKey_sent,
        hresumption] at hdata
      obtain rfl := Option.some.inj hdata
      have hbinders := binders_sent lawful hoffers hsuites hresumption hparse
      have hmem := List.mem_of_getElem? hpskAccepted.binder_at
      rw [hbinders] at hmem
      obtain rfl := List.mem_singleton.mp hmem
      obtain ⟨hash, before, hhash', hcut, hbinder⟩ := hoffers.binds resumption hresumption
      obtain rfl := Except.ok.inj (hhash'.symm.trans hbound)
      have hcut' := PresharedKeyOffer.truncated_eq_ok.mp hpskAccepted.cut
      rw [hbinders] at hcut'
      obtain rfl : before = truncated := List.append_cancel_right (hcut.symm.trans hcut')
      have hverified := verifyFinished_iff.mp hpskAccepted.verified
      rw [hhash] at hbinder
      have hsame : pskBinder ring answer.selected.hash resumption.session.psk
          (answer.selected.hash.hash ring (octets answer.front ++ before))
          = pskBinder ring answer.selected.hash psk.psk
          (answer.selected.hash.hash ring (octets answer.front ++ before)) := by
        rw [← hbinder, hpskAccepted.psk_eq]
        exact hverified.symm
      rcases @eq_or_collides _ _ (fun key => pskBinder ring answer.selected.hash key
        (answer.selected.hash.hash ring (octets answer.front ++ before))) _ _ hsame with
        heq | hcollides
      · exact .inl (by rw [hsession, Option.map_some, Option.map_some, heq])
      · refine .inr ⟨resumption, psk, _, hresumption, hpsk, ⟨_, offer, before, ?_, hparse, ?_, rfl⟩,
          hcollides⟩
        · rw [hello, Client.Awaiting.hello, Client.sentHello, Client.find_preSharedKey_sent,
            hresumption]
          rfl
        · exact hpskAccepted.cut

/-- The same hellos and the same PSK, if any, are the same keys. -/
theorem SameHellos.sameSession (h : SameHellos ring client server start awaiting reply answer)
    (hopened : Client.Opened ring client start before awaiting)
    (hkeyed : Client.Keyed ring client awaiting reply flight negotiated)
    (hanswers : Server.AnswersHello ring server answer answered)
    (hpsk : reply.session.map (·.psk) = answer.selected.psk.map (·.psk))
    (hoctets : awaiting.clientHello ++ reply.message.encoded
      = answer.draw.hellos answer.head answer.hello answer.selected) :
    SameSession ring client server start (before ++ reply.message :: flight) negotiated answer
      answered := by
  have hsuite : (⟨reply.hello.cipherSuite⟩ : CipherSuite) = answer.selected.suite := by
    rw [h.serverHello.2]
    rfl
  have hparts := hkeyed.accepted.parts
  rw [hsuite, hanswers.parts] at hparts
  obtain ⟨haead, hhash⟩ := Prod.mk.inj (Option.some.inj hparts)
  have hearly : Client.earlySchedule ring negotiated.hash reply.session
      = Server.earlySchedule ring answer.selected.hash answer.selected.psk := by
    rw [← hhash]
    cases hsession : reply.session <;> cases hselected : answer.selected.psk <;>
      rw [hsession, hselected] at hpsk
    · rfl
    · cases hpsk
    · cases hpsk
    · exact congrArg (KeySchedule.newWithPsk ring answer.selected.hash) (Option.some.inj hpsk)
  have hschedule : negotiated.schedule = answer.draw.schedule ring answer.selected := by
    rw [hkeyed.schedule, h.secret, Server.FlightDraw.schedule, hearly]
  refine ⟨⟨before, awaiting, reply, flight, rfl, hopened, hkeyed, h, hpsk⟩, ?_, ?_, ?_, ?_, ?_, ?_⟩
  · rw [hkeyed.suite, hsuite, hanswers.completed.suite]
  · rw [← haead, hanswers.completed.aead]
  · rw [← hhash, hanswers.completed.hash]
  · rw [hkeyed.clientSecret, hanswers.completed.clientSecret, hschedule, hoctets, ← hhash]
    rfl
  · rw [hkeyed.serverSecret, hschedule, hoctets, ← hhash]
    rfl
  · rw [hschedule, hanswers.completed.master]

end Sessions

end RustyTls
