import RustyTls.Seals
import RustyTls.ServerSound

/-!
# RustyTls.Nonces

No endpoint seals two records under one key and nonce.

The keys an end seals with are the generations of a `Derivation`, and every call of `seal` is at
a generation and a number. `Standing` says where the calls so far have got to: they are in order,
and all of them before the generation and the number that come next. A call moves the number on,
a new sealer the generation, and nothing moves either back.
-/

namespace RustyTls

open Core

/-! ### Calls in order -/

/-- One call of `seal` comes before another. -/
def Before (a b : Nat × UInt64) : Prop := a.1 < b.1 ∨ a.1 = b.1 ∧ a.2.toNat < b.2.toNat

section Standing

variable {ring : Ring} (lawful : ring.Lawful)

/-- The call at a generation and a number. -/
def Derivation.sealAt (derivation : Derivation) (use : Nat × UInt64) : Seal :=
  ⟨directionKey lawful derivation.hash ((derivation.generation use.1).eval ring) derivation.aead,
    use.2⟩

/-- The nonce discipline: the calls are at generations of one derivation, whose keys differ as
terms, and calls at one generation have different nonces. -/
def Disciplined (role : Role) (log : List Seal) : Prop :=
  ∃ (derivation : Derivation) (uses : List (Nat × UInt64)), derivation.role = role ∧
    log = uses.map (derivation.sealAt lawful) ∧
    (∀ use ∈ uses, (derivation.sealAt lawful use).key.key = (derivation.sealKey use.1).eval ring) ∧
    uses.Pairwise fun a b =>
      (a.1 ≠ b.1 ∧ derivation.sealKey a.1 ≠ derivation.sealKey b.1) ∨
      (a.1 = b.1 ∧ (derivation.sealAt lawful a).nonce ≠ (derivation.sealAt lawful b).nonce)

/-- Where the calls have got to. -/
structure Standing (derivation : Derivation) (uses : List (Nat × UInt64)) (log : List Seal)
    (n k : Nat) : Prop where
  log_eq : log = uses.map (derivation.sealAt lawful)
  ordered : uses.Pairwise Before
  past : ∀ use ∈ uses, use.1 < n ∨ use.1 = n ∧ use.2.toNat < k

/-- The direction an end sends in, after the calls so far. -/
def Stands (role : Role) (log : List Seal) (sending : Direction) : Prop :=
  ∃ (derivation : Derivation) (uses : List (Nat × UInt64)) (n k : Nat), derivation.role = role ∧
    Standing lawful derivation uses log (n + 1) k ∧
    sending = derivation.direction lawful (n + 1) (seqAt k)

variable {derivation : Derivation} {uses : List (Nat × UInt64)} {log : List Seal} {n k : Nat}
  {role : Role} {sending : Direction}

theorem standing_nil (derivation : Derivation) (n k : Nat) :
    Standing lawful derivation [] [] n k := ⟨rfl, .nil, by simp⟩

variable {lawful}

/-- One more call. -/
theorem Standing.call (h : Standing lawful derivation uses log n k) (hk : k < 2 ^ 64) :
    Standing lawful derivation (uses ++ [(n, UInt64.ofNat k)])
      (log ++ [derivation.sealAt lawful (n, UInt64.ofNat k)]) n (k + 1) := by
  have hval : (UInt64.ofNat k).toNat = k := by simpa using Nat.mod_eq_of_lt hk
  refine ⟨by simp [h.log_eq], ?_, ?_⟩
  · rw [List.pairwise_append]
    refine ⟨h.ordered, List.pairwise_singleton .., ?_⟩
    intro a ha b hb
    obtain rfl := List.mem_singleton.mp hb
    rcases h.past a ha with hlt | ⟨heq, hlt⟩
    · exact .inl hlt
    · exact .inr ⟨heq, by rw [hval]; exact hlt⟩
  · intro use huse
    rcases List.mem_append.mp huse with huse | huse
    · rcases h.past use huse with hlt | ⟨heq, hlt⟩
      · exact .inl hlt
      · exact .inr ⟨heq, by omega⟩
    · obtain rfl := List.mem_singleton.mp huse
      exact .inr ⟨rfl, by rw [hval]; omega⟩

theorem Standing.congr_log {log' : List Seal} (h : Standing lawful derivation uses log n k)
    (heq : log' = log) : Standing lawful derivation uses log' n k := heq ▸ h

/-- A new sealer. -/
theorem Standing.advance (h : Standing lawful derivation uses log n k) :
    Standing lawful derivation uses log (n + 1) 0 := by
  refine ⟨h.log_eq, h.ordered, ?_⟩
  intro use huse
  have := h.past use huse
  omega

theorem Standing.disciplined (h : Standing lawful derivation uses log n k)
    (hrole : derivation.role = role) : Disciplined lawful role log := by
  refine ⟨derivation, uses, hrole, h.log_eq, fun _ _ => rfl, h.ordered.imp ?_⟩
  rintro ⟨m, i⟩ ⟨n, j⟩ (hlt | ⟨rfl, hlt⟩)
  · have hne : m ≠ n := by
      intro heq
      simp only [heq, lt_irrefl] at hlt
    exact .inl ⟨hne, fun heq => hne (derivation.sealKey_injective heq)⟩
  · refine .inr ⟨rfl, fun heq => ?_⟩
    have hnumber : i = j := nonce_injective heq
    simp only [hnumber, lt_irrefl] at hlt

theorem Stands.disciplined (h : Stands lawful role log sending) : Disciplined lawful role log := by
  obtain ⟨derivation, uses, n, k, hrole, hstanding, -⟩ := h
  exact hstanding.disciplined hrole

theorem disciplined_nil (lawful : ring.Lawful) (role : Role) : Disciplined lawful role [] :=
  ⟨⟨role, .aes128Gcm, .sha256, [], [], [], []⟩, [], rfl, rfl, by simp, .nil⟩

/-- A call on the sealer of the direction. -/
theorem Stands.call (h : Stands lawful role log sending) (typ : ContentType) (fragment : Bytes) :
    Stands lawful role (log ++ sending.sealer.made ring typ fragment)
      { sending with sealer := (sending.sealer.sealRecord ring typ fragment 0).2 } := by
  obtain ⟨derivation, uses, n, k, hrole, hstanding, hsending⟩ := h
  rcases sending.sealer.made_cases ring typ fragment with
    ⟨seq, record, hseq, hmade, hseal⟩ | ⟨hmade, err, hseal⟩
  · have hpeek : (seqAt k).peek = .ok seq := by
      rw [hsending] at hseq
      rw [Sequence.peek, okOr_eq_ok]
      exact hseq
    obtain ⟨hk, rfl⟩ := seqAt_peek hpeek
    refine ⟨derivation, uses ++ [(n + 1, UInt64.ofNat k)], n, k + 1, hrole, ?_, ?_⟩
    · rw [hmade, hsending]
      exact hstanding.call hk
    · rw [hseal, hsending, seqAt_advance hk]
      rfl
  · rw [hmade, hseal, List.append_nil]
    exact ⟨derivation, uses, n, k, hrole, hstanding, hsending⟩

/-- The next secret. -/
theorem Stands.next (h : Stands lawful role log sending) :
    Stands lawful role log (sending.next lawful) := by
  obtain ⟨derivation, uses, n, k, hrole, hstanding, rfl⟩ := h
  refine ⟨derivation, uses, n + 1, 0, hrole, hstanding.advance, ?_⟩
  rw [derivation.direction_next lawful]
  rfl

end Standing

/-! ### On a connection -/

namespace Connection

variable {ring : Ring} {lawful : ring.Lawful} {role : Role} {log : List Seal}

theorem messageSeals_of_ne {connection : Connection} {m : Message} (h : m.typ ≠ .keyUpdate) :
    connection.messageSeals ring m = [] := by
  rw [messageSeals, if_neg h]

theorem messageSeals_of_update (lawful : ring.Lawful) {connection : Connection} {m : Message}
    (h : m.typ = .keyUpdate) :
    connection.messageSeals ring m = if m.body = [0x01] then
      connection.sealer.made ring .handshake (Message.encode .keyUpdate [0x00]) else [] := by
  rw [messageSeals, if_pos h, rekeyReceiving_eq lawful]
  rfl

theorem stands_message {connection : Connection} (h : Stands lawful role log connection.sending)
    (m : Message) :
    Stands lawful role (log ++ connection.messageSeals ring m)
      (connection.postHandshakeMessage ring m).2.sending := by
  rcases postHandshakeMessage_eq lawful connection m with
    ⟨hrefused, err, hmessage⟩ | ⟨htyp, -, hmessage⟩ | ⟨htyp, hbody, hmessage⟩ |
    ⟨hrequests, record, -, hmessage⟩ | ⟨hrequests, hanswer, err, hmessage⟩
  · rw [hmessage, messageSeals_of_ne fun htyp => hrefused (.inl htyp), List.append_nil]
    exact h
  · rw [hmessage, messageSeals_of_ne (by simp [htyp]), List.append_nil]
    exact h
  · rw [hmessage, messageSeals_of_update lawful htyp, if_neg hbody, List.append_nil]
    exact h
  · rw [hmessage, messageSeals_of_update lawful hrequests.1, if_pos hrequests.2]
    exact (h.call .handshake (Message.encode .keyUpdate [0x00])).next
  · rw [hmessage, messageSeals_of_update lawful hrequests.1, if_pos hrequests.2]
    have hsame : (connection.sending.sealer.sealRecord ring .handshake
        (Message.encode .keyUpdate [0x00]) 0).2 = connection.sending.sealer := by
      rw [Direction.answer_eq lawful] at hanswer
      split at hanswer
      · next hseal =>
          rw [hseal]
          exact sealRecord_error hseal
      · cases hanswer
    have hcall := h.call .handshake (Message.encode .keyUpdate [0x00])
    rw [hsame] at hcall
    exact hcall

theorem stands_loop (ms : List Message) : ∀ {connection : Connection} {log : List Seal},
    Stands lawful role log connection.sending →
      Stands lawful role (log ++ connection.loopSeals ring ms)
        (connection.postHandshakeLoop ring ms).2.sending := by
  induction ms with
  | nil =>
      intro connection log h
      simpa [loopSeals, postHandshakeLoop] using h
  | cons m ms ih =>
      intro connection log h
      have hmessage := stands_message h m
      cases hresult : connection.postHandshakeMessage ring m with
      | mk result after =>
          rw [hresult] at hmessage
          cases result with
          | error err =>
              rw [postHandshakeLoop_error hresult, loopSeals, hresult, List.append_nil]
              exact hmessage
          | ok out =>
              rw [postHandshakeLoop_ok hresult, loopSeals, hresult, ← List.append_assoc]
              exact ih hmessage

/-- Every call on a connection keeps the standing. -/
theorem stands_call {connection : Connection} (h : Stands lawful role log connection.sending)
    (call : Call) :
    Stands lawful role (log ++ connection.callSeals ring call)
      (connection.afterCall ring call).sending := by
  cases call with
  | write data => exact h.call .applicationData data
  | read record =>
      by_cases hhandshake : ∃ fragment opener,
          connection.opener.openRecord ring record = (.ok ⟨.handshake, fragment⟩, opener)
      · obtain ⟨fragment, opener, hopen⟩ := hhandshake
        rw [callSeals, if_neg (head_of_openRecord hopen), hopen, afterCall, read_handshake hopen,
          postHandshake_eq]
        have hopened : Stands lawful role log { connection with opener }.sending := h
        exact stands_loop (wholeMessages fragment) hopened
      · have hsame : (connection.afterCall ring (.read record)).sending = connection.sending :=
          read_sending_of_other fun fragment opener hopen => hhandshake ⟨fragment, opener, hopen⟩
        have hnone : connection.callSeals ring (.read record) = [] := by
          rw [callSeals]
          split
          · rfl
          · split
            · next fragment opener hopen => exact absurd ⟨fragment, opener, hopen⟩ hhandshake
            · rfl
        rw [hsame, hnone, List.append_nil]
        exact h

theorem disciplined_calls (calls : List Call) : ∀ {connection : Connection} {log : List Seal},
    Stands lawful role log connection.sending →
      Disciplined lawful role (log ++ connection.callsSeals ring calls) := by
  induction calls with
  | nil =>
      intro connection log h
      rw [callsSeals, List.append_nil]
      exact h.disciplined
  | cons call calls ih =>
      intro connection log h
      rw [callsSeals, ← List.append_assoc]
      exact ih (stands_call h call)

end Connection

/-! ### In a client's handshake -/

namespace Client

variable {ring : Ring} {lawful : ring.Lawful}

/-- What the flight is received with is derived as the terms say. -/
structure Derives (ring : Ring) (derivation : Derivation) (negotiated : Negotiated) : Prop where
  role : derivation.role = .client
  aead : negotiated.aead = derivation.aead
  hash : negotiated.hash = derivation.hash
  transcript : negotiated.transcript.hashAlg = derivation.hash
  schedule : negotiated.schedule = ⟨derivation.hash, derivation.handshake.eval ring⟩
  secret : negotiated.clientHandshakeSecret = (derivation.generation 0).eval ring

/-- The invariant of a handshake. -/
def Logged (lawful : ring.Lawful) (log : List Seal) : State → Prop
  | .awaitServerHello _ => log = []
  | .inFlight _ negotiated => log = [] ∧ ∃ derivation, Derives ring derivation negotiated
  | .done connection => Stands lawful .client log connection.sending
  | .failed => Disciplined lawful .client log

theorem Logged.failed {log : List Seal} {state : State} (h : Logged lawful log state) :
    Logged lawful log .failed := by
  cases state with
  | awaitServerHello awaiting =>
      obtain rfl : log = [] := h
      exact disciplined_nil lawful .client
  | inFlight expect negotiated =>
      obtain ⟨rfl, -⟩ := h
      exact disciplined_nil lawful .client
  | done connection => exact Stands.disciplined h
  | failed => exact h

/-- The secrets that a ServerHello gives. -/
theorem derives_of_derived {awaiting : Awaiting} {message : Message} {suite : CipherSuite}
    {aead : Aead} {hash : Hash} {session : Option Session} {secret : Bytes}
    {negotiated : Negotiated}
    (h : Derived ring awaiting message suite aead hash session secret negotiated) :
    Derives ring ⟨.client, aead, hash, (session.map (·.psk)).getD (List.replicate hash.len 0), secret,
      awaiting.clientHello ++ message.encoded, []⟩ negotiated := by
  have hschedule : negotiated.schedule = ⟨hash, (Derivation.handshake ⟨.client, aead, hash,
      (session.map (·.psk)).getD (List.replicate hash.len 0), secret,
      awaiting.clientHello ++ message.encoded, []⟩).eval ring⟩ := by
    rw [h.schedule_eq]
    cases session <;> rfl
  refine ⟨rfl, h.aead_eq, h.hash_eq, by rw [h.transcript_eq], hschedule, ?_⟩
  rw [h.client_eq, hschedule]
  rfl

/-- A message of the flight that is not the Finished keeps the secrets. -/
theorem derives_flight {entropy : Entropy} {config : ClientConfig} {expect : Expect}
    {derivation : Derivation} {negotiated : Negotiated} {message : Message} {reply : Bytes}
    {next : State} (hderives : Derives ring derivation negotiated)
    (hfinished : ¬ (expect = .finished ∧ message.typ = .finished))
    (h : handleFlightMessage ring entropy config expect negotiated message = .ok (reply, next)) :
    ∃ expect' negotiated', next = .inFlight expect' negotiated' ∧
      Derives ring derivation negotiated' := by
  obtain ⟨hrole, haead, hhash, htranscript, hschedule, hsecret⟩ := hderives
  rcases flight_next h with ⟨-, -, -, _, _, _, _, rfl⟩ | ⟨hexpect, htyp, -⟩
  · exact ⟨_, _, rfl, hrole, haead, hhash, htranscript, hschedule, hsecret⟩
  · exact absurd ⟨hexpect, htyp⟩ hfinished

/-- `finish` seals at the handshake's generation, and installs the application's. -/
theorem leaves_finish {derivation : Derivation} {negotiated : Negotiated}
    (hderives : Derives ring derivation negotiated) (entropy : Entropy) (config : ClientConfig)
    (message : Message) :
    (endpoint ring config).Leaves ring (Logged lawful) []
      (finishHandling ring entropy config negotiated message) := by
  have hfailed : Logged lawful [] (endpoint ring config).failed := disciplined_nil lawful .client
  obtain ⟨hrole, haead, hhash, htranscript, hschedule, hsecret⟩ := hderives
  rw [finishHandling]
  refine Handling.after_cases (Endpoint.leaves_fails hfailed) fun verifyData _ => ?_
  refine Handling.after_cases (Endpoint.leaves_fails hfailed) fun _ _ => ?_
  refine Handling.after_cases (Endpoint.leaves_fails hfailed) fun authentication _ => ?_
  refine Handling.after_cases (Endpoint.leaves_fails hfailed) fun sealer hsealer => ?_
  rw [sealer_new lawful, mapErr_ok] at hsealer
  obtain rfl := Except.ok.inj hsealer
  refine Endpoint.leaves_seals hfailed (fun err => ⟨.record err, rfl⟩) fun seq record hseq => ?_
  obtain rfl : 0 = seq := Option.some.inj hseq
  simp only [mapErr_ok, ok_bind, sealer_new lawful, opener_new lawful, Endpoint.left]
  -- The application secret covers the transcript through the server's Finished.
  obtain ⟨completed, hcompleted⟩ : ∃ completed, completed = { derivation with
    finished := (negotiated.transcript.addMessage message).buffer } := ⟨_, rfl⟩
  have happlication : (negotiated.schedule.intoMaster ring).derive ring "c ap traffic"
      ((negotiated.transcript.addMessage message).hash ring)
        = (completed.generation 1).eval ring := by
    have hbuffer : (negotiated.transcript.addMessage message).hash ring
        = derivation.hash.hash ring (negotiated.transcript.addMessage message).buffer := by
      rw [← htranscript]
      rfl
    have hlabel : completed.role.applicationLabel = "c ap traffic" := by
      rw [hcompleted]
      show derivation.role.applicationLabel = _
      rw [hrole]
      rfl
    rw [hschedule, hbuffer, Derivation.generation, hlabel, hcompleted]
    rfl
  have hstanding := (standing_nil lawful completed 0 0).call (by decide)
  refine ⟨completed, _, 0, 0, by rw [hcompleted]; exact hrole, hstanding.advance.congr_log ?_, ?_⟩
  · rw [hhash, haead, hsecret, hcompleted]
    rfl
  · rw [Connection.sending, happlication, hhash, haead, hcompleted]
    rfl

/-- Every message keeps the log. -/
theorem leaves_handling (config : ClientConfig) (entropy : Entropy) {log : List Seal} {state : State}
    (h : Logged lawful log state) (message : Message) :
    (endpoint ring config).Leaves ring (Logged lawful) log
      (handling ring config entropy state message) := by
  have hfailed : Logged lawful log (endpoint ring config).failed := h.failed
  cases state with
  | awaitServerHello awaiting =>
      refine Endpoint.leaves_returns hfailed fun reply next hnext => ?_
      obtain rfl : log = [] := h
      obtain ⟨hello, aead, hash, -, ⟨-, -, hretry⟩ | ⟨-, hnegotiate⟩⟩ := handleServerHello_inv hnext
      · obtain ⟨share, group, kx, second, random, sessionId, -, -, -, -, -, -, -, rfl⟩ :=
          retry_inv hretry
        rfl
      · obtain ⟨share, peerKey, session, secret, negotiated, -, -, -, -, hderived, -, rfl⟩ :=
          negotiate_inv hnegotiate
        exact ⟨rfl, _, derives_of_derived hderived⟩
  | inFlight expect negotiated =>
      obtain ⟨rfl, derivation, hderives⟩ := h
      by_cases hfinished : expect = .finished ∧ message.typ = .finished
      · obtain ⟨rfl, htyp⟩ := hfinished
        rw [handling, if_pos htyp]
        exact leaves_finish hderives entropy config message
      · have hreturns : handling ring config entropy (.inFlight expect negotiated) message
            = .returns (handleMessage ring entropy config (.inFlight expect negotiated) message) := by
          unfold handling
          split
          · next heq =>
              obtain ⟨rfl, rfl⟩ := State.inFlight.inj heq
              rw [if_neg fun htyp => hfinished ⟨rfl, htyp⟩]
          · rfl
        rw [hreturns]
        refine Endpoint.leaves_returns hfailed fun reply next hnext => ?_
        obtain ⟨expect', negotiated', rfl, hderives'⟩ := derives_flight hderives hfinished hnext
        exact ⟨rfl, derivation, hderives'⟩
  | done connection => exact Endpoint.leaves_returns hfailed fun reply next hnext => by cases hnext
  | failed => exact Endpoint.leaves_returns hfailed fun reply next hnext => by cases hnext

theorem logged_unframe {log : List Seal} {state next : State} {record fragment : Bytes}
    (h : Logged lawful log state) (hunframe : unframe ring state record = .ok (fragment, next)) :
    Logged lawful log next := by
  rcases unframe_inv hunframe with ⟨-, rfl, -⟩ | ⟨expect, negotiated, opener, rfl, rfl, -⟩
  · exact h
  · obtain ⟨hlog, derivation, hrole, haead, hhash, htranscript, hschedule, hsecret⟩ := h
    exact ⟨hlog, derivation, hrole, haead, hhash, htranscript, hschedule, hsecret⟩

/-- Every call of `seal` in the life of a client: in its handshake and then, if it finishes, on
its connection. -/
def lifeSeals (ring : Ring) (config : ClientConfig) (handshake : ClientHandshake)
    (inputs : List (Entropy × Bytes)) (calls : List Connection.Call) : List Seal :=
  Endpoint.runSeals ring (endpoint ring config) (handling ring config) handshake inputs ++
    match ((endpoint ring config).run handshake inputs).state with
    | .done connection => connection.callsSeals ring calls
    | _ => []

theorem disciplined_life {entropy : Entropy} {config : ClientConfig} {handshake : ClientHandshake}
    {record : Bytes} (hstart : start ring entropy config = .ok (handshake, record))
    (inputs : List (Entropy × Bytes)) (calls : List Connection.Call) :
    Disciplined lawful .client (lifeSeals ring config handshake inputs calls) := by
  obtain ⟨group, kx, hello, random, sessionId, -, -, -, -, rfl, -⟩ := start_inv hstart
  have hlogged := Endpoint.runSeals_induct (P := Logged lawful) (handling_result ring config)
    (fun log s h => h.failed) (fun log s record fragment s' h => logged_unframe h)
    (fun entropy log s m h => leaves_handling config entropy h m) inputs
    ⟨.awaitServerHello ⟨hello, kx, false, random, sessionId⟩, []⟩ [] rfl
  rw [List.nil_append] at hlogged
  rw [lifeSeals]
  cases hstate : ((endpoint ring config).run
      ⟨.awaitServerHello ⟨hello, kx, false, random, sessionId⟩, []⟩ inputs).state with
  | done connection =>
      rw [hstate] at hlogged
      exact Connection.disciplined_calls calls hlogged
  | awaitServerHello awaiting | inFlight expect negotiated | failed =>
      rw [hstate] at hlogged
      rw [List.append_nil]
      exact hlogged.failed

end Client

/-! ### In a server's handshake -/

namespace Server

variable {ring : Ring} {lawful : ring.Lawful}

/-- What the server waits with after its flight is derived as the terms say. -/
structure Derives (ring : Ring) (derivation : Derivation) (negotiated : Negotiated) : Prop where
  role : derivation.role = .server
  aead : negotiated.aead = derivation.aead
  hash : negotiated.hash = derivation.hash
  secret : negotiated.serverApplicationSecret = (derivation.generation 1).eval ring

/-- The invariant of a handshake. -/
def Logged (lawful : ring.Lawful) (log : List Seal) : State → Prop
  | .awaitClientHello => log = []
  | .awaitRetriedClientHello _ => log = []
  | .awaitFinished negotiated => ∃ derivation uses, Derives ring derivation negotiated ∧
      Standing lawful derivation uses log 1 0
  | .done connection => Stands lawful .server log connection.sending
  | .failed => Disciplined lawful .server log

theorem Logged.failed {log : List Seal} {state : State} (h : Logged lawful log state) :
    Logged lawful log .failed := by
  cases state with
  | awaitClientHello =>
      obtain rfl : log = [] := h
      exact disciplined_nil lawful .server
  | awaitRetriedClientHello retrying =>
      obtain rfl : log = [] := h
      exact disciplined_nil lawful .server
  | awaitFinished negotiated =>
      obtain ⟨derivation, uses, hderives, hstanding⟩ := h
      exact hstanding.disciplined hderives.role
  | done connection => exact Stands.disciplined h
  | failed => exact h

/-- The server's flight is sealed at the handshake's generation. -/
theorem leaves_complete (entropy : Entropy) (config : ServerConfig) (head : Bytes)
    (hello : ClientHello) (selected : Selected) (ccs : Bool) :
    (endpoint ring config).Leaves ring (Logged lawful) []
      (completeHandling ring entropy config head hello selected ccs) := by
  have hfailed : Logged lawful [] (endpoint ring config).failed := disciplined_nil lawful .server
  rw [completeHandling]
  refine Handling.after_cases (Endpoint.leaves_fails hfailed) fun kx _ => ?_
  refine Handling.after_cases (Endpoint.leaves_fails hfailed) fun random _ => ?_
  refine Handling.after_cases (Endpoint.leaves_fails hfailed) fun secret _ => ?_
  refine Handling.after_cases (Endpoint.leaves_fails hfailed) fun sealer hsealer => ?_
  rw [sealer_new lawful, mapErr_ok] at hsealer
  obtain rfl := Except.ok.inj hsealer
  refine Handling.after_cases (Endpoint.leaves_fails hfailed) fun authentication _ => ?_
  refine Handling.after_cases (Endpoint.leaves_fails hfailed) fun opener _ => ?_
  refine Endpoint.leaves_seals hfailed (fun err => ⟨.record err, rfl⟩) fun seq record hseq => ?_
  obtain rfl : 0 = seq := Option.some.inj hseq
  obtain ⟨draw, hdraw⟩ : ∃ draw : FlightDraw, draw = ⟨kx, random, secret, authentication⟩ := ⟨_, rfl⟩
  have hstanding := (standing_nil lawful ⟨.server, selected.aead, selected.hash,
    (selected.psk.map (·.psk)).getD (List.replicate selected.hash.len 0), secret,
    draw.hellos head hello selected, draw.sent ring config head hello selected⟩ 0 0).call (by decide)
  refine ⟨_, _, ⟨rfl, rfl, rfl, ?_⟩, hstanding.advance.congr_log ?_⟩
  · subst hdraw
    cases hpsk : selected.psk <;>
      simp only [FlightDraw.sent, FlightDraw.covered, FlightDraw.finished, FlightDraw.opening,
        FlightDraw.serverSecret, FlightDraw.schedule, FlightDraw.hellos, FlightDraw.serverHello, hpsk]
        <;> rfl
  · subst hdraw
    cases hpsk : selected.psk <;>
      simp only [FlightDraw.hellos, FlightDraw.serverHello, hpsk] <;> rfl

/-- The tickets are sealed at the application's generation, which the connection goes on with. -/
theorem leaves_finished {derivation : Derivation} {uses : List (Nat × UInt64)} {log : List Seal}
    {negotiated : Negotiated} (hderives : Derives ring derivation negotiated)
    (hstanding : Standing lawful derivation uses log 1 0) (entropy : Entropy)
    (config : ServerConfig) (message : Message) :
    (endpoint ring config).Leaves ring (Logged lawful) log
      (finishedHandling ring entropy config negotiated message) := by
  have hfailed : Logged lawful log (endpoint ring config).failed :=
    hstanding.disciplined hderives.role
  obtain ⟨hrole, haead, hhash, hsecret⟩ := hderives
  rw [finishedHandling]
  refine Handling.after_cases (Endpoint.leaves_fails hfailed) fun verifyData _ => ?_
  refine Handling.after_cases (Endpoint.leaves_fails hfailed) fun _ _ => ?_
  refine Handling.after_cases (Endpoint.leaves_fails hfailed) fun sealer hsealer => ?_
  rw [sealer_new lawful, mapErr_ok] at hsealer
  obtain rfl := Except.ok.inj hsealer
  refine Handling.after_cases (Endpoint.leaves_fails hfailed) fun flight _ => ?_
  have hkey : directionKey lawful negotiated.hash negotiated.serverApplicationSecret negotiated.aead
      = (derivation.sealAt lawful (1, 0)).key := by
    rw [hhash, hsecret, haead]
    rfl
  cases flight with
  | none =>
      refine Endpoint.leaves_returns hfailed fun reply next hnext => ?_
      simp only [opener_new lawful, mapErr_ok, ok_bind] at hnext
      obtain ⟨-, rfl⟩ := Prod.mk.inj (Except.ok.inj hnext)
      refine ⟨derivation, uses, 0, 0, hrole, hstanding, ?_⟩
      rw [Connection.sending, Connection.fromParts]
      simp only [haead, hhash, hsecret]
      rfl
  | some flight =>
      refine Endpoint.leaves_seals hfailed (fun err => ⟨.record err, rfl⟩) fun seq record hseq => ?_
      obtain rfl : 0 = seq := Option.some.inj hseq
      simp only [mapErr_ok, ok_bind, opener_new lawful, Endpoint.left]
      refine ⟨derivation, _, 0, 1, hrole, (hstanding.call (by decide)).congr_log ?_, ?_⟩
      · rw [hkey]
        rfl
      · rw [Connection.sending, Connection.fromParts]
        simp only [haead, hhash, hsecret]
        rfl

/-- A message of the client's flight that is not the Finished keeps the secrets. -/
theorem derives_flight {entropy : Entropy} {config : ServerConfig} {derivation : Derivation}
    {negotiated : Negotiated} {message : Message} {reply : Bytes} {next : State}
    (hderives : Derives ring derivation negotiated)
    (hfinished : ¬ ((negotiated.expect = .finished ∨
      negotiated.expect = .finishedAfterEmptyCertificate) ∧ message.typ = .finished))
    (h : clientFlight ring entropy config negotiated message = .ok (reply, next)) :
    ∃ negotiated', next = .awaitFinished negotiated' ∧ Derives ring derivation negotiated' := by
  obtain ⟨hrole, haead, hhash, hsecret⟩ := hderives
  rcases flight_next h with ⟨-, -, -, _, _, _, rfl⟩ | ⟨hexpect, htyp, -⟩
  · exact ⟨_, rfl, hrole, haead, hhash, hsecret⟩
  · exact absurd ⟨hexpect, htyp⟩ hfinished

/-- The first hello. -/
theorem leaves_hello (entropy : Entropy) (config : ServerConfig) (message : Message) :
    (endpoint ring config).Leaves ring (Logged lawful) []
      (helloHandling ring entropy config message) := by
  have hfailed : Logged lawful [] (endpoint ring config).failed := disciplined_nil lawful .server
  rw [helloHandling]
  refine Handling.after_cases (Endpoint.leaves_fails hfailed) fun _ _ => ?_
  refine Handling.after_cases (Endpoint.leaves_fails hfailed) fun hello _ => ?_
  refine Handling.after_cases (Endpoint.leaves_fails hfailed) fun _ _ => ?_
  refine Handling.after_cases (Endpoint.leaves_fails hfailed) fun suite _ => ?_
  refine Handling.after_cases (Endpoint.leaves_fails hfailed) fun parts _ => ?_
  refine Handling.after_cases (Endpoint.leaves_fails hfailed) fun scheme _ => ?_
  refine Handling.after_cases (Endpoint.leaves_fails hfailed) fun shares _ => ?_
  cases chooseShare config shares with
  | none =>
      refine Endpoint.leaves_returns hfailed fun reply next hnext => ?_
      obtain ⟨offered, groups, group, -, -, -, rfl⟩ := retry_inv hnext
      rfl
  | some chosen =>
      refine Handling.after_cases (Endpoint.leaves_fails hfailed) fun psk _ => ?_
      exact leaves_complete entropy config ..

/-- The hello that answers a retry. -/
theorem leaves_retried (entropy : Entropy) (config : ServerConfig) (retrying : Retrying)
    (message : Message) :
    (endpoint ring config).Leaves ring (Logged lawful) []
      (retriedHandling ring entropy config retrying message) := by
  have hfailed : Logged lawful [] (endpoint ring config).failed := disciplined_nil lawful .server
  rw [retriedHandling]
  refine Handling.after_cases (Endpoint.leaves_fails hfailed) fun _ _ => ?_
  refine Handling.after_cases (Endpoint.leaves_fails hfailed) fun hello _ => ?_
  refine Handling.after_cases (Endpoint.leaves_fails hfailed) fun _ _ => ?_
  refine Handling.after_cases (Endpoint.leaves_fails hfailed) fun _ _ => ?_
  refine Handling.after_cases (Endpoint.leaves_fails hfailed) fun _ _ => ?_
  refine Handling.after_cases (Endpoint.leaves_fails hfailed) fun scheme _ => ?_
  refine Handling.after_cases (Endpoint.leaves_fails hfailed) fun data _ => ?_
  refine Handling.after_cases (Endpoint.leaves_fails hfailed) fun shares _ => ?_
  refine Handling.after_cases (Endpoint.leaves_fails hfailed) fun peerKey _ => ?_
  refine Handling.after_cases (Endpoint.leaves_fails hfailed) fun psk _ => ?_
  exact leaves_complete entropy config ..

/-- Every message keeps the log. -/
theorem leaves_handling (config : ServerConfig) (entropy : Entropy) {log : List Seal} {state : State}
    (h : Logged lawful log state) (message : Message) :
    (endpoint ring config).Leaves ring (Logged lawful) log
      (handling ring config entropy state message) := by
  have hfailed : Logged lawful log (endpoint ring config).failed := h.failed
  cases state with
  | awaitClientHello =>
      obtain rfl : log = [] := h
      exact leaves_hello entropy config message
  | awaitRetriedClientHello retrying =>
      obtain rfl : log = [] := h
      exact leaves_retried entropy config retrying message
  | awaitFinished negotiated =>
      obtain ⟨derivation, uses, hderives, hstanding⟩ := h
      by_cases hfinished : (negotiated.expect = .finished ∨
          negotiated.expect = .finishedAfterEmptyCertificate) ∧ message.typ = .finished
      · rw [handling, if_pos hfinished]
        exact leaves_finished hderives hstanding entropy config message
      · rw [handling, if_neg hfinished]
        refine Endpoint.leaves_returns hfailed fun reply next hnext => ?_
        obtain ⟨negotiated', rfl, hderives'⟩ := derives_flight hderives hfinished hnext
        exact ⟨derivation, uses, hderives', hstanding⟩
  | done connection => exact Endpoint.leaves_returns hfailed fun reply next hnext => by cases hnext
  | failed => exact Endpoint.leaves_returns hfailed fun reply next hnext => by cases hnext

theorem logged_unframe {log : List Seal} {state next : State} {record fragment : Bytes}
    (h : Logged lawful log state) (hunframe : unframe ring state record = .ok (fragment, next)) :
    Logged lawful log next := by
  rcases unframe_inv hunframe with ⟨-, rfl, -⟩ | ⟨negotiated, opener, rfl, rfl, -⟩
  · exact h
  · obtain ⟨derivation, uses, ⟨hrole, haead, hhash, hsecret⟩, hstanding⟩ := h
    exact ⟨derivation, uses, ⟨hrole, haead, hhash, hsecret⟩, hstanding⟩

/-- Every call of `seal` in the life of a server: in its handshake and then, if it finishes, on
its connection. -/
def lifeSeals (ring : Ring) (config : ServerConfig) (inputs : List (Entropy × Bytes))
    (calls : List Connection.Call) : List Seal :=
  Endpoint.runSeals ring (endpoint ring config) (handling ring config) ServerHandshake.new inputs ++
    match ((endpoint ring config).run ServerHandshake.new inputs).state with
    | .done connection => connection.callsSeals ring calls
    | _ => []

theorem disciplined_life (config : ServerConfig) (inputs : List (Entropy × Bytes))
    (calls : List Connection.Call) :
    Disciplined lawful .server (lifeSeals ring config inputs calls) := by
  have hlogged := Endpoint.runSeals_induct (P := Logged lawful) (handling_result ring config)
    (fun log s h => h.failed) (fun log s record fragment s' h => logged_unframe h)
    (fun entropy log s m h => leaves_handling config entropy h m) inputs ServerHandshake.new [] rfl
  rw [List.nil_append] at hlogged
  rw [lifeSeals]
  cases hstate : ((endpoint ring config).run ServerHandshake.new inputs).state with
  | done connection =>
      rw [hstate] at hlogged
      exact Connection.disciplined_calls calls hlogged
  | awaitClientHello | awaitRetriedClientHello retrying | awaitFinished negotiated | failed =>
      rw [hstate] at hlogged
      rw [List.append_nil]
      exact hlogged.failed

end Server

/-! ### The main result -/

/-- The nonce discipline of a whole connection. In the life of every client and of every server,
handshake and connection, no two calls of `seal` that succeed share a key and a nonce: at
different sealers the keys are different terms, and at one sealer the nonces are different. -/
theorem lifeSeals_disciplined {ring : Ring} (lawful : ring.Lawful) :
    (∀ (entropy : Entropy) (config : Client.ClientConfig) (handshake : Client.ClientHandshake)
      (record : Bytes), Client.start ring entropy config = .ok (handshake, record) →
      ∀ (inputs : List (Entropy × Bytes)) (calls : List Connection.Call),
        Disciplined lawful .client (Client.lifeSeals ring config handshake inputs calls)) ∧
    ∀ (config : Server.ServerConfig) (inputs : List (Entropy × Bytes))
      (calls : List Connection.Call),
      Disciplined lawful .server (Server.lifeSeals ring config inputs calls) :=
  ⟨fun _ _ _ _ hstart inputs calls => Client.disciplined_life hstart inputs calls,
    fun config inputs calls => Server.disciplined_life config inputs calls⟩

/-- The sample server's handshake with a client that it asks for a certificate, and two writes:
the flight, the tickets, and a record each. -/
theorem lifeSeals_disciplined_sample :
    (Server.lifeSeals .sample Server.sampleAsking Server.sampleDialogue
        [.write [1], .write [2]]).map (·.seq) = [0, 0, 1, 2] ∧
      Disciplined Ring.sample_lawful .server (Server.lifeSeals .sample Server.sampleAsking
        Server.sampleDialogue [.write [1], .write [2]]) :=
  ⟨by decide +kernel, (lifeSeals_disciplined Ring.sample_lawful).2 ..⟩

end RustyTls
