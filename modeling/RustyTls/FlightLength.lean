import RustyTls.ClientSound
import RustyTls.Seals
import RustyTls.Delivery

/-!
# RustyTls.FlightLength

What becomes of a flight that is longer than a record.

The three flights that a handshake protects, the server's, the client's and the tickets, are each
handed to one call of `seal`, and `seal` refuses what is longer than `MAX_FRAGMENT_LEN`. So no
flight is cut, and a handler fails for a length exactly when its flight has one that is too great:
nothing else that it does ends in that error (`LengthOnly`).
-/

namespace RustyTls

open Core

/-! ### Errors of a handler -/

/-- A result that is no failure for a length. -/
def Within {ε α : Type} (ofRecord : RecordError → ε) (result : Except ε α) : Prop :=
  ∀ len max, result ≠ .error (ofRecord (.fragmentTooLong len max))

namespace Within

variable {ε ε' α β : Type} {ofRecord : RecordError → ε}

theorem ok (a : α) : Within ofRecord (.ok a) := by
  simp [Within]

theorem bind {x : Except ε α} {f : α → Except ε β} (hx : Within ofRecord x)
    (hf : ∀ a, Within ofRecord (f a)) : Within ofRecord (x >>= f) := by
  intro len max h
  rcases bind_eq_error.mp h with h | ⟨a, -, h⟩
  · exact hx len max h
  · exact hf a len max h

theorem refuse {c : Prop} [Decidable c] {e : ε}
    (he : ∀ len max, e ≠ ofRecord (.fragmentTooLong len max)) :
    Within ofRecord (RustyTls.Core.refuse c e) :=
  fun len max h => he len max (refuse_eq_error.mp h).2

theorem okOr {o : Option α} {e : ε} (he : ∀ len max, e ≠ ofRecord (.fragmentTooLong len max)) :
    Within ofRecord (RustyTls.Core.okOr o e) :=
  fun len max h => he len max (okOr_eq_error.mp h).2

theorem mapErr {f : ε' → ε} {x : Except ε' α}
    (hf : ∀ e len max, f e ≠ ofRecord (.fragmentTooLong len max)) :
    Within ofRecord (RustyTls.Core.mapErr f x) := by
  intro len max h
  obtain ⟨e, -, he⟩ := mapErr_eq_error.mp h
  exact hf e len max he

end Within

/-- Keys are refused for their own lengths, not for a fragment's. -/
theorem DirectionKey.new_ne_tooLong {alg : Aead} {key iv : Bytes} {len max : Nat} :
    DirectionKey.new alg key iv ≠ .error (.fragmentTooLong len max) := by
  unfold DirectionKey.new
  split
  · split <;> simp
  · simp

@[simp] theorem Sealer.new_ne_tooLong {alg : Aead} {key iv : Bytes} {len max : Nat} :
    Sealer.new alg key iv = .error (.fragmentTooLong len max) ↔ False := by
  simp [Sealer.new, Sealer.newAt, bind_eq_error, DirectionKey.new_ne_tooLong]

@[simp] theorem Opener.new_ne_tooLong {alg : Aead} {key iv : Bytes} {len max : Nat} :
    Opener.new alg key iv = .error (.fragmentTooLong len max) ↔ False := by
  simp [Opener.new, Opener.newAt, bind_eq_error, DirectionKey.new_ne_tooLong]

section Keys

variable {ε : Type} {ofRecord : RecordError → ε} {alg : Aead} {key iv : Bytes}

theorem within_sealer (hinjective : Function.Injective ofRecord) :
    Within ofRecord (mapErr ofRecord (Sealer.new alg key iv)) := by
  intro len max h
  obtain ⟨err, hnew, heq⟩ := mapErr_eq_error.mp h
  rw [hinjective heq] at hnew
  simp at hnew

theorem within_opener (hinjective : Function.Injective ofRecord) :
    Within ofRecord (mapErr ofRecord (Opener.new alg key iv)) := by
  intro len max h
  obtain ⟨err, hnew, heq⟩ := mapErr_eq_error.mp h
  rw [hinjective heq] at hnew
  simp at hnew

theorem sealer_new_fresh {sealer : Sealer}
    (h : mapErr ofRecord (Sealer.new alg key iv) = .ok sealer) : sealer.seq = .startingAt 0 := by
  simp only [mapErr_eq_ok, Sealer.new, Sealer.newAt, bind_eq_ok] at h
  obtain ⟨_, -, heq⟩ := h
  obtain rfl := Except.ok.inj heq
  rfl

end Keys

theorem ClientError.record_injective : Function.Injective ClientError.record :=
  fun _ _ h => ClientError.record.inj h

theorem Server.ServerError.record_injective : Function.Injective Server.ServerError.record :=
  fun _ _ h => Server.ServerError.record.inj h

namespace Handling

variable {ε σ α : Type}

/-- The flight that a handler hands to `seal`. -/
def flight : Handling ε σ → List Bytes
  | .returns _ => []
  | .seals _ fragment _ => [fragment]

/-- A handler fails for a length in its call of `seal` or not at all, and makes that call with a
key that has sealed nothing. -/
def LengthOnly (ofRecord : RecordError → ε) : Handling ε σ → Prop
  | .returns result => Within ofRecord result
  | .seals sealer _ resume => sealer.seq = .startingAt 0 ∧
      (∀ err next, resume (.error err, next) = .error (ofRecord err)) ∧
      ∀ record next, Within ofRecord (resume (.ok record, next))

variable {ofRecord : RecordError → ε}

theorem lengthOnly_after {first : Except ε α} {rest : α → Handling ε σ}
    (hfirst : Within ofRecord first)
    (hrest : ∀ a, first = .ok a → LengthOnly ofRecord (rest a)) :
    LengthOnly ofRecord (after first rest) := by
  cases hresult : first with
  | ok a => exact hrest a hresult
  | error err =>
      intro len max heq
      exact hfirst len max (hresult.trans (congrArg Except.error (Except.error.inj heq)))

/-- A handler fails for a length exactly when its flight is too long, and says how long it is. -/
theorem LengthOnly.result_iff {ring : Ring} (complete : ring.Complete)
    (hinjective : Function.Injective ofRecord) {handling : Handling ε σ}
    (h : LengthOnly ofRecord handling) {len max : Nat} :
    handling.result ring = .error (ofRecord (.fragmentTooLong len max)) ↔
      ∃ fragment ∈ handling.flight, maxFragmentLen < fragment.length ∧ len = fragment.length ∧
        max = maxFragmentLen := by
  cases handling with
  | returns result => simpa [flight] using h len max
  | seals sealer fragment resume =>
      obtain ⟨⟨key, seq⟩, rfl⟩ : ∃ made, made = sealer := ⟨_, rfl⟩
      obtain ⟨hfresh, herror, hok⟩ := h
      obtain rfl : seq = .startingAt 0 := hfresh
      simp only [seals_result, flight, List.mem_singleton, exists_eq_left]
      by_cases hlen : fragment.length ≤ maxFragmentLen
      · obtain ⟨record, hrecord⟩ := @sealRecord_complete ring complete ⟨key, .startingAt 0⟩ 0 rfl
          .handshake fragment hlen
        rw [hrecord]
        constructor
        · intro heq
          exact absurd heq (hok _ _ _ _)
        · intro h
          obtain ⟨hlong, -⟩ := h
          omega
      · have hlong : ((Sealer.mk key (.startingAt 0)).sealRecord ring .handshake fragment 0).1
            = .error (.fragmentTooLong fragment.length maxFragmentLen) := by
          rw [Sealer.sealRecord, Sealer.sealing, refuse_pos _ (Nat.not_le.mp hlen)]
          rfl
        rw [show (Sealer.mk key (.startingAt 0)).sealRecord ring .handshake fragment 0
          = (_, _) from Prod.ext hlong rfl, herror]
        constructor
        · intro heq
          have hsame := hinjective (Except.error.inj heq)
          obtain ⟨rfl, rfl⟩ := RecordError.fragmentTooLong.inj hsame
          exact ⟨Nat.not_le.mp hlen, rfl, rfl⟩
        · intro h
          obtain ⟨-, rfl, rfl⟩ := h
          rfl

end Handling

/-! ### The client's handlers -/

namespace Client

variable (ring : Ring) (config : ClientConfig) (entropy : Entropy)

theorem within_buildClientHello (kx : KeyExchange) (identity : Option (Bytes × Bytes))
    (front : Bytes) : Within ClientError.record
      (buildClientHello ring entropy config kx identity front) := by
  refine .bind ?_ fun _ => .bind ?_ fun _ => .ok _
  · cases identity with
    | some pair => exact .ok _
    | none => exact .bind (.okOr (by simp)) fun _ => .bind (.okOr (by simp)) fun _ => .ok _
  · unfold encodeHello
    split
    · exact .ok _
    · exact .bind (.bind (.okOr (by simp)) fun _ => .ok _) fun _ => .mapErr (by simp)

theorem within_acceptedSession (hello : ServerHello) (hash : Hash) :
    Within ClientError.record (acceptedSession config hello hash) := by
  unfold acceptedSession
  split
  · exact .ok _
  · refine .bind (.okOr (by simp)) fun _ => .bind ?_ fun _ => .bind (.refuse (by simp)) fun _ =>
      .bind (.bind (.okOr (by simp)) fun _ => .ok _) fun _ => .bind (.refuse (by simp)) fun _ => .ok _
    intro len max h
    unfold selectedIdentity at h
    split at h <;> simp at h

/-- A ServerHello, whatever comes of it. -/
theorem within_handleServerHello (awaiting : Awaiting) (message : Message) :
    Within ClientError.record (handleServerHello ring entropy config awaiting message) := by
  refine .bind (.refuse (by simp)) fun _ => .bind (.mapErr (by simp)) fun hello =>
    .bind (.refuse (by simp)) fun _ => .bind (.okOr (by simp)) fun _ => .bind ?_ fun _ =>
    .bind (.refuse (by simp)) fun _ => .bind (.refuse (by simp)) fun _ => ?_
  · unfold checkVersion
    split
    · exact .ok _
    · split <;> simp [Within]
  · split
    · exact .bind (.okOr (by simp)) fun _ => .bind (.refuse (by simp)) fun _ =>
        .bind (.okOr (by simp)) fun _ => .bind (.refuse (by simp)) fun _ =>
        .bind (.mapErr (by simp)) fun _ =>
        .bind (within_buildClientHello ring config entropy _ _ _) fun _ => .ok _
    · exact .bind (.okOr (by simp)) fun _ => .bind (.mapErr (by simp)) fun _ =>
        .bind (.refuse (by simp)) fun _ => .bind (within_acceptedSession config _ _) fun _ =>
        .bind (.mapErr (by simp)) fun _ => .bind (within_opener ClientError.record_injective) fun _ => .ok _

theorem within_checkPeer (negotiated : Negotiated) (verify : CertificateVerify) :
    Within ClientError.record (checkPeer ring config negotiated verify) :=
  .bind (.mapErr (by simp)) fun _ => .bind (.okOr (by simp)) fun _ =>
    .bind (.mapErr (by simp)) fun _ => .mapErr (by simp)

/-- A message of the server's flight before its Finished. -/
theorem within_handleFlightMessage (expect : Expect) (negotiated : Negotiated) (message : Message)
    (hbefore : ¬ (expect = .finished ∧ message.typ = .finished)) : Within ClientError.record
      (handleFlightMessage ring entropy config expect negotiated message) := by
  unfold handleFlightMessage
  split
  · exact .bind (.refuse (by simp)) fun _ => .bind (.refuse (by simp)) fun _ =>
      .bind (.refuse (by simp)) fun _ => .bind (.mapErr (by simp)) fun _ => .ok _
  · split
    · exact .bind (.mapErr (by simp)) fun _ => .bind (.refuse (by simp)) fun _ => .ok _
    · exact .bind (.mapErr (by simp)) fun _ => .bind (.refuse (by simp)) fun _ => .ok _
    · exact .bind (.mapErr (by simp)) fun _ =>
        .bind (within_checkPeer ring config negotiated _) fun _ => .ok _
    · next htyp => exact absurd ⟨rfl, htyp⟩ hbefore
    · simp [Within]

theorem within_clientAuthentication (negotiated : Negotiated) (transcript : Transcript) :
    Within ClientError.record
      (clientAuthentication ring entropy config negotiated transcript) := by
  unfold clientAuthentication
  split
  · exact .ok _
  · unfold answerRequest
    split
    · exact .ok _
    · exact .bind (.bind (.okOr (by simp)) fun _ => .bind (.mapErr (by simp)) fun _ => .ok _)
        fun _ => .ok _

/-- The client's Finished. -/
theorem lengthOnly_finish (negotiated : Negotiated) (message : Message) :
    (finishHandling ring entropy config negotiated message).LengthOnly ClientError.record := by
  refine Handling.lengthOnly_after (.mapErr (by simp)) fun _ _ =>
    Handling.lengthOnly_after (.refuse (by simp)) fun _ _ =>
    Handling.lengthOnly_after (within_clientAuthentication ring config entropy _ _) fun _ _ =>
    Handling.lengthOnly_after (within_sealer ClientError.record_injective) fun sealer hsealer =>
      ⟨sealer_new_fresh hsealer, fun _ _ => rfl, fun _ _ => ?_⟩
  exact .bind (.ok _) fun _ => .bind (within_sealer ClientError.record_injective) fun _ =>
    .bind (within_opener ClientError.record_injective) fun _ => .ok _

/-- Every handler of the client's. -/
theorem lengthOnly_handling (state : State) (message : Message) :
    (handling ring config entropy state message).LengthOnly ClientError.record := by
  unfold handling
  split
  · next negotiated =>
      split
      · exact lengthOnly_finish ring config entropy negotiated message
      · next htyp =>
          exact within_handleFlightMessage ring config entropy .finished negotiated message
            fun hboth => htyp hboth.2
  · next hstate =>
      cases state with
      | awaitServerHello awaiting =>
          exact within_handleServerHello ring config entropy awaiting message
      | inFlight expect negotiated =>
          refine within_handleFlightMessage ring config entropy expect negotiated message ?_
          intro h
          obtain ⟨rfl, -⟩ := h
          exact hstate negotiated rfl
      | done connection => simp [Handling.LengthOnly, handleMessage, Within]
      | failed => simp [Handling.LengthOnly, handleMessage, Within]

end Client

/-! ### The server's handlers -/

namespace Server

variable (ring : Ring) (config : ServerConfig) (entropy : Entropy)

theorem within_selectPsk (tickets : Tickets) (suite : CipherSuite) (hash : Hash) (covered : Bytes)
    (binders : List Bytes) : ∀ (identities : List PskIdentity) (index : Nat),
    Within ServerError.record
      (selectPsk ring config tickets suite hash covered binders index identities) := by
  intro identities
  induction identities with
  | nil => exact fun index => .ok _
  | cons offered rest ih =>
      intro index
      rw [selectPsk]
      split
      · exact ih _
      · simp [Within]
      · split
        · exact .bind (.okOr (by simp)) fun _ => .bind (.refuse (by simp)) fun _ => .ok _
        · exact ih _

theorem within_acceptPsk (hello : ClientHello) (encodedHello transcriptPrefix : Bytes)
    (suite : CipherSuite) (hash : Hash) : Within ServerError.record
      (acceptPsk ring config hello encodedHello transcriptPrefix suite hash) := by
  refine .bind (.refuse (by simp)) fun _ => ?_
  split
  · exact .ok _
  · refine .bind (.refuse (by simp)) fun _ => ?_
    split
    · exact .ok _
    · split
      · exact .bind (.mapErr (by simp)) fun _ => .bind (.mapErr (by simp)) fun _ =>
          within_selectPsk ring config _ suite hash _ _ _ _
      · exact .ok _

theorem within_selectScheme (hello : ClientHello) :
    Within ServerError.record (selectScheme config hello) :=
  .bind (.okOr (by simp)) fun _ => .bind (.mapErr (by simp)) fun _ => .okOr (by simp)

theorem within_offeredShares (hello : ClientHello) :
    Within ServerError.record (offeredShares hello) := by
  unfold offeredShares
  split
  · exact .mapErr (by simp)
  · exact .ok _

theorem within_serverAuthentication (scheme : SignatureScheme) (psk : Option AcceptedPsk)
    (transcript : Transcript) : Within ServerError.record
      (serverAuthentication ring entropy config scheme psk transcript) := by
  unfold serverAuthentication
  split
  · exact .ok _
  · exact .bind (.mapErr (by simp)) fun _ => .ok _

/-- The server's flight. -/
theorem lengthOnly_complete (head : Bytes) (hello : ClientHello) (selected : Selected) (ccs : Bool) :
    (completeHandling ring entropy config head hello selected ccs).LengthOnly ServerError.record :=
  Handling.lengthOnly_after (.mapErr (by simp)) fun _ _ =>
    Handling.lengthOnly_after (.okOr (by simp)) fun _ _ =>
    Handling.lengthOnly_after (.mapErr (by simp)) fun _ _ =>
    Handling.lengthOnly_after (within_sealer ServerError.record_injective) fun _ hsealer =>
    Handling.lengthOnly_after (within_serverAuthentication ring config entropy _ _ _) fun _ _ =>
    Handling.lengthOnly_after (within_opener ServerError.record_injective) fun _ _ =>
      ⟨sealer_new_fresh hsealer, fun _ _ => rfl, fun _ _ => .bind (.ok _) fun _ => .ok _⟩

theorem lengthOnly_hello (message : Message) :
    (helloHandling ring entropy config message).LengthOnly ServerError.record := by
  refine Handling.lengthOnly_after (.refuse (by simp)) fun _ _ =>
    Handling.lengthOnly_after (.mapErr (by simp)) fun hello _ =>
    Handling.lengthOnly_after (.refuse (by simp)) fun _ _ =>
    Handling.lengthOnly_after (.okOr (by simp)) fun _ _ =>
    Handling.lengthOnly_after (.okOr (by simp)) fun _ _ =>
    Handling.lengthOnly_after (within_selectScheme config _) fun _ _ =>
    Handling.lengthOnly_after (within_offeredShares _) fun _ _ => ?_
  split
  · exact Within.bind (.okOr (by simp)) fun _ => .bind (.mapErr (by simp)) fun _ =>
      .bind (.okOr (by simp)) fun _ => .ok _
  · exact Handling.lengthOnly_after (within_acceptPsk ring config _ _ _ _ _) fun _ _ =>
      lengthOnly_complete ring config entropy _ _ _ _

theorem lengthOnly_retried (retrying : Retrying) (message : Message) :
    (retriedHandling ring entropy config retrying message).LengthOnly ServerError.record :=
  Handling.lengthOnly_after (.refuse (by simp)) fun _ _ =>
    Handling.lengthOnly_after (.mapErr (by simp)) fun _ _ =>
    Handling.lengthOnly_after (.refuse (by simp)) fun _ _ =>
    Handling.lengthOnly_after (.refuse (by simp)) fun _ _ =>
    Handling.lengthOnly_after (.refuse (by simp)) fun _ _ =>
    Handling.lengthOnly_after (within_selectScheme config _) fun _ _ =>
    Handling.lengthOnly_after (.okOr (by simp)) fun _ _ =>
    Handling.lengthOnly_after (.mapErr (by simp)) fun _ _ =>
    Handling.lengthOnly_after (.okOr (by simp)) fun _ _ =>
    Handling.lengthOnly_after (within_acceptPsk ring config _ _ _ _ _) fun _ _ =>
      lengthOnly_complete ring config entropy _ _ _ _

theorem within_issueLoop (tickets : Tickets) (negotiated : Negotiated) (resumptionMaster : Bytes) :
    ∀ remaining k, Within ServerError.record
      (issueLoop ring entropy config tickets negotiated resumptionMaster remaining k) := by
  intro remaining
  induction remaining with
  | zero => exact fun k => .ok _
  | succ remaining ih =>
      intro k
      have hticket : Within ServerError.record
          (issueTicket ring entropy config tickets negotiated resumptionMaster k) :=
        .bind (.okOr (by simp)) fun _ => .bind (.okOr (by simp)) fun _ =>
          .bind (.mapErr (by simp)) fun _ => .ok _
      exact .bind hticket fun _ => .bind (ih _) fun _ => .ok _

theorem within_ticketFlight (negotiated : Negotiated) : Within ServerError.record
    (ticketFlight ring entropy config negotiated) := by
  unfold ticketFlight
  split
  · exact .ok _
  · split
    · exact .ok _
    · exact .bind (within_issueLoop ring config entropy _ _ _ _ _) fun _ => .ok _

/-- The client's Finished, and the tickets after it. -/
theorem lengthOnly_finished (negotiated : Negotiated) (message : Message) :
    (finishedHandling ring entropy config negotiated message).LengthOnly ServerError.record := by
  refine Handling.lengthOnly_after (.mapErr (by simp)) fun _ _ =>
    Handling.lengthOnly_after (.refuse (by simp)) fun _ _ =>
    Handling.lengthOnly_after (within_sealer ServerError.record_injective) fun _ hsealer =>
    Handling.lengthOnly_after (within_ticketFlight ring config entropy _) fun flight _ => ?_
  cases flight with
  | none => exact Within.bind (within_opener ServerError.record_injective) fun _ => .ok _
  | some flight =>
      exact ⟨sealer_new_fresh hsealer, fun _ _ => rfl, fun _ _ => .bind (.ok _) fun _ =>
        .bind (within_opener ServerError.record_injective) fun _ => .ok _⟩

/-- A message of the client's flight before its Finished. -/
theorem within_clientFlight (negotiated : Negotiated) (message : Message)
    (hbefore : ¬ ((negotiated.expect = .finished ∨
      negotiated.expect = .finishedAfterEmptyCertificate) ∧ message.typ = .finished)) :
    Within ServerError.record (clientFlight ring entropy config negotiated message) := by
  unfold clientFlight
  split
  · refine .bind (.mapErr (by simp)) fun _ => .bind (.okOr (by simp)) fun _ => ?_
    split
    · exact .bind (.refuse (by simp)) fun _ => .ok _
    · exact .bind (.mapErr (by simp)) fun _ => .bind (.okOr (by simp)) fun _ =>
        .bind (.mapErr (by simp)) fun _ => .ok _
  · exact .bind (.mapErr (by simp)) fun _ => .bind (.okOr (by simp)) fun _ =>
      .bind (.mapErr (by simp)) fun _ => .bind (.mapErr (by simp)) fun _ => .ok _
  · next hexpect htyp => exact absurd ⟨.inl hexpect, htyp⟩ hbefore
  · next hexpect htyp => exact absurd ⟨.inr hexpect, htyp⟩ hbefore
  · simp [Within]

/-- Every handler of the server's. -/
theorem lengthOnly_handling (state : State) (message : Message) :
    (handling ring config entropy state message).LengthOnly ServerError.record := by
  unfold handling
  split
  · exact lengthOnly_hello ring config entropy message
  · exact lengthOnly_retried ring config entropy _ message
  · next negotiated =>
      split
      · exact lengthOnly_finished ring config entropy negotiated message
      · next hbefore => exact within_clientFlight ring config entropy negotiated message hbefore
  · next hclient hretried hfinished =>
      cases state with
      | awaitClientHello => exact absurd rfl hclient
      | awaitRetriedClientHello retrying => exact absurd rfl (hretried retrying)
      | awaitFinished negotiated => exact absurd rfl (hfinished negotiated)
      | done connection => simp [Handling.LengthOnly, handle, Within]
      | failed => simp [Handling.LengthOnly, handle, Within]

end Server

/-! ### Records -/

namespace Endpoint

variable {ε σ : Type}

/-- The flights that messages are answered with, up to the first message that is refused. -/
def flightsOf (ring : Ring) (handling : σ → Message → Handling ε σ) : σ → List Message → List Bytes
  | _, [] => []
  | s, m :: ms => (handling s m).flight ++
      match (handling s m).result ring with
      | .ok (_, s') => flightsOf ring handling s' ms
      | .error _ => []

/-- The messages of a record fail for a length exactly when one of their flights is too long. -/
theorem handleAll_tooLong_iff {ring : Ring} (complete : ring.Complete)
    {ofRecord : RecordError → ε} (hinjective : Function.Injective ofRecord)
    {handling : σ → Message → Handling ε σ} {handle : σ → Message → Except ε (Bytes × σ)}
    (hresult : ∀ s m, (handling s m).result ring = handle s m)
    (honly : ∀ s m, (handling s m).LengthOnly ofRecord) : ∀ (ms : List Message) (s : σ),
    (∃ len max, handleAll handle s ms = .error (ofRecord (.fragmentTooLong len max))) ↔
      ∃ flight ∈ flightsOf ring handling s ms, maxFragmentLen < flight.length := by
  intro ms
  induction ms with
  | nil => simp [flightsOf]
  | cons m ms ih =>
      intro s
      have hfirst : ∀ len max, handle s m = .error (ofRecord (.fragmentTooLong len max)) ↔ _ :=
        fun len max => hresult s m ▸ (honly s m).result_iff complete hinjective
      cases hhandle : handle s m with
      | error err =>
          have hflights : flightsOf ring handling s (m :: ms) = (handling s m).flight := by
            rw [flightsOf, hresult, hhandle, List.append_nil]
          rw [hflights, handleAll_cons, hhandle]
          constructor
          · intro h
            obtain ⟨len, max, heq⟩ := h
            obtain ⟨flight, hmem, hlong, -⟩ := (hfirst len max).mp
              (hhandle.trans (congrArg Except.error (Except.error.inj heq)))
            exact ⟨flight, hmem, hlong⟩
          · intro h
            obtain ⟨flight, hmem, hlong⟩ := h
            have heq := (hfirst _ _).mpr ⟨flight, hmem, hlong, rfl, rfl⟩
            exact ⟨_, _, congrArg Except.error (Except.error.inj (hhandle.symm.trans heq))⟩
      | ok answer =>
          obtain ⟨reply, s'⟩ := answer
          -- A handler that succeeds has sealed its flight, so that one is not too long.
          have hshort : ∀ flight ∈ (handling s m).flight, ¬ maxFragmentLen < flight.length := by
            intro flight hmem hlong
            have heq := (hfirst _ _).mpr ⟨flight, hmem, hlong, rfl, rfl⟩
            rw [hhandle] at heq
            cases heq
          have hflights : flightsOf ring handling s (m :: ms)
              = (handling s m).flight ++ flightsOf ring handling s' ms := by
            rw [flightsOf, hresult, hhandle]
          have hrest : ∀ len max, handleAll handle s (m :: ms)
              = .error (ofRecord (.fragmentTooLong len max)) ↔
                handleAll handle s' ms = .error (ofRecord (.fragmentTooLong len max)) := by
            intro len max
            rw [handleAll_cons, hhandle, ok_bind, bind_eq_error]
            simp
          simp only [hrest, hflights, List.mem_append]
          rw [ih]
          constructor
          · intro h
            obtain ⟨flight, hmem, hlong⟩ := h
            exact ⟨flight, .inr hmem, hlong⟩
          · intro h
            obtain ⟨flight, hmem | hmem, hlong⟩ := h
            · exact absurd hlong (hshort flight hmem)
            · exact ⟨flight, hmem, hlong⟩

variable [DecidableEq σ]

/-- The flights that a record is answered with. -/
def recordFlights (endpoint : Endpoint ε σ) (ring : Ring)
    (handling : Entropy → σ → Message → Handling ε σ) (entropy : Entropy)
    (handshake : Reassembling σ) (record : Bytes) : List Bytes :=
  if handshake.state = endpoint.failed ∨ record.length < headerLen ∨
      record.headD 0 = changeCipherSpec then
    []
  else
    match endpoint.unframe handshake.state record with
    | .ok (fragment, state) =>
        flightsOf ring (handling entropy) state (wholeMessages (handshake.buffer ++ fragment))
    | .error _ => []

/-- A record was taken apart, and the read failed for a length all the same: that of something to
be sent, since the record's own had been checked. -/
def FailsForLength (endpoint : Endpoint ε σ) (entropy : Entropy) (handshake : Reassembling σ)
    (record : Bytes) : Prop :=
  (∃ opened, endpoint.unframe handshake.state record = .ok opened) ∧
    ∃ len max, (endpoint.readRecord entropy handshake record).1
      = .error (endpoint.ofRecord (.fragmentTooLong len max))

/-- A read fails for a length exactly when a flight that it would answer with is too long. -/
theorem failsForLength_iff {ring : Ring} (complete : ring.Complete) {endpoint : Endpoint ε σ}
    {handling : Entropy → σ → Message → Handling ε σ}
    (hinjective : Function.Injective endpoint.ofRecord)
    (hplain : ∀ len max, endpoint.alreadyFailed ≠ endpoint.ofRecord (.fragmentTooLong len max))
    (hresult : ∀ entropy s m,
      (handling entropy s m).result ring = endpoint.handle entropy s m)
    (honly : ∀ entropy s m, (handling entropy s m).LengthOnly endpoint.ofRecord)
    (entropy : Entropy) (handshake : Reassembling σ) (record : Bytes) :
    endpoint.FailsForLength entropy handshake record ↔
      ∃ flight ∈ recordFlights endpoint ring handling entropy handshake record,
        maxFragmentLen < flight.length := by
  have hmessages := handleAll_tooLong_iff complete hinjective (hresult entropy) (honly entropy)
  unfold FailsForLength recordFlights
  by_cases hfailed : handshake.state = endpoint.failed
  · simp [readRecord, hfailed, hplain]
  by_cases hshort : record.length < headerLen
  · simp only [hfailed, hshort, readRecord, if_false, readRecordInner, if_true, false_or, true_or,
      List.not_mem_nil, false_and, exists_false, iff_false, not_and, not_exists]
    intro _ len max heq
    have hsame := hinjective (Except.error.inj heq)
    cases hsame
  by_cases hccs : record.headD 0 = changeCipherSpec
  · have hread : endpoint.readRecord entropy handshake record = (.ok [], handshake) := by
      rw [readRecord, if_neg hfailed, readRecordInner, if_neg hshort, if_pos hccs]
    rw [hread, if_pos (.inr (.inr hccs))]
    simp
  · rw [if_neg (not_or.mpr ⟨hfailed, not_or.mpr ⟨hshort, hccs⟩⟩)]
    cases hunframe : endpoint.unframe handshake.state record with
    | error err => simp
    | ok opened =>
        obtain ⟨fragment, state⟩ := opened
        simp only
        rw [← hmessages]
        simp only [readRecord, if_neg hfailed, readRecordInner, if_neg hshort, if_neg hccs, hunframe,
          ok_bind, drain_eq, Except.ok.injEq, exists_eq', true_and]
        cases handleAll (endpoint.handle entropy) state
            (wholeMessages (handshake.buffer ++ fragment)) with
        | error err => simp
        | ok answer => simp

end Endpoint

namespace Server

/-- The sample server with another chain. -/
def ServerConfig.withChain (certificates : List Bytes) : ServerConfig :=
  { ServerConfig.sample with certificates }

/-- A hello that it answers at once, and the record it comes in. -/
def sampleShared : ClientHello :=
  sampleHello [⟨ExtensionType.keyShare, [0, 5, 0, 0x1d, 0, 1, 3]⟩]

def sampleSharedRecord : Bytes :=
  plaintextRecord .handshake (Message.encode .clientHello sampleShared.encode)

end Server

/-- No flight is cut. Whatever either end is configured with and whatever it has read, a record
that it takes apart makes the read fail for a length exactly when a flight that it answers with,
its own Certificate to Finished or the tickets of a connection, is longer than `MAX_FRAGMENT_LEN`:
a flight of at most that never makes it fail so, and a longer one always does. -/
theorem run_failsForLength_iff {ring : Ring} (complete : ring.Complete) :
    (∀ (config : Server.ServerConfig) (inputs : List (Entropy × Bytes)) (entropy : Entropy)
        (record : Bytes),
      let endpoint := Server.endpoint ring config
      let handshake := endpoint.run Server.ServerHandshake.new inputs
      endpoint.FailsForLength entropy handshake record ↔
        ∃ flight ∈ endpoint.recordFlights ring (Server.handling ring config) entropy handshake
            record, maxFragmentLen < flight.length) ∧
    ∀ (config : Client.ClientConfig) (drawn : Entropy) (start : Client.ClientHandshake)
        (hello : Bytes), Client.start ring drawn config = .ok (start, hello) →
      ∀ (inputs : List (Entropy × Bytes)) (entropy : Entropy) (record : Bytes),
        let endpoint := Client.endpoint ring config
        let handshake := endpoint.run start inputs
        endpoint.FailsForLength entropy handshake record ↔
          ∃ flight ∈ endpoint.recordFlights ring (Client.handling ring config) entropy handshake
              record, maxFragmentLen < flight.length := by
  constructor
  · intro config inputs entropy record
    exact Endpoint.failsForLength_iff complete Server.ServerError.record_injective
      (by simp [Server.endpoint])
      (fun entropy s m => Server.handling_result ring config entropy s m)
      (fun entropy s m => Server.lengthOnly_handling ring config entropy s m) entropy _ record
  · intro config drawn start hello _ inputs entropy record
    exact Endpoint.failsForLength_iff complete ClientError.record_injective
      (by simp [Client.endpoint])
      (fun entropy s m => Client.handling_result ring config entropy s m)
      (fun entropy s m => Client.lengthOnly_handling ring config entropy s m) entropy _ record

/-- What the sample client has read before the last record that the sample server sends it. -/
def Client.sampleBeforeFlight : Client.ClientHandshake :=
  (Client.endpoint .sample .sample).run Client.sampleStarted.1
    ((Client.sampleAnswer Client.sampleStarted.2).dropLast.map (.sample 3, ·))

/-- That record, with the server's flight. -/
def Client.sampleFlightRecord : Bytes :=
  (Client.sampleAnswer Client.sampleStarted.2).getLastD []

/-- The sample server answers a hello, the sample client answers the flight, and each with a flight
that fits. -/
theorem run_failsForLength_iff_sample :
    (∃ flight ∈ (Server.endpoint .sample .sample).recordFlights .sample
        (Server.handling .sample .sample) (.sample 1) Server.ServerHandshake.new
        Server.sampleSharedRecord, flight ≠ []) ∧
      ¬ (Server.endpoint .sample .sample).FailsForLength (.sample 1)
        ((Server.endpoint .sample .sample).run Server.ServerHandshake.new [])
        Server.sampleSharedRecord ∧
      (∃ flight ∈ (Client.endpoint .sample .sample).recordFlights .sample
        (Client.handling .sample .sample) (.sample 3) Client.sampleBeforeFlight
        Client.sampleFlightRecord, flight ≠ []) ∧
      ¬ (Client.endpoint .sample .sample).FailsForLength (.sample 3) Client.sampleBeforeFlight
        Client.sampleFlightRecord := by
  obtain ⟨hserver, hclient⟩ := run_failsForLength_iff Ring.sample_complete
  refine ⟨by decide +kernel, ?_, by decide +kernel, ?_⟩
  · intro hfails
    obtain ⟨flight, hmem, hlong⟩ := (hserver .sample [] (.sample 1) _).mp hfails
    have hshort : ∀ flight ∈ (Server.endpoint .sample .sample).recordFlights .sample
        (Server.handling .sample .sample) (.sample 1) Server.ServerHandshake.new
        Server.sampleSharedRecord, flight.length ≤ maxFragmentLen := by decide +kernel
    exact absurd hlong (Nat.not_lt.mpr (hshort flight hmem))
  · intro hfails
    obtain ⟨flight, hmem, hlong⟩ := (hclient .sample _ _ _ Client.start_sampleStarted
      ((Client.sampleAnswer Client.sampleStarted.2).dropLast.map (.sample 3, ·)) (.sample 3) _).mp
      hfails
    have hshort : ∀ flight ∈ (Client.endpoint .sample .sample).recordFlights .sample
        (Client.handling .sample .sample) (.sample 3) Client.sampleBeforeFlight
        Client.sampleFlightRecord, flight.length ≤ maxFragmentLen := by decide +kernel
    exact absurd hlong (Nat.not_lt.mpr (hshort flight hmem))

namespace Server

/-- A server that authenticates with its chain sends all of it in one flight. -/
theorem completeHandling_flight {ring : Ring} (lawful : ring.Lawful) {entropy : Entropy}
    {config : ServerConfig} {head : Bytes} {hello : ClientHello} {selected : Selected}
    {sendChangeCipherSpec : Bool} {kx : KeyExchange} {random secret : Bytes}
    (hkx : KeyExchange.generate ring entropy selected.group = .ok kx)
    (hrandom : randomBytes entropy 0 32 = .ok random)
    (hsecret : kx.agree ring selected.peerKey = .ok secret)
    (hpsk : selected.psk = none)
    (hsign : ∀ content, ∃ signature,
      config.key.sign ring entropy selected.scheme content = .ok signature) :
    ∃ flight ∈ (completeHandling ring entropy config head hello selected
        sendChangeCipherSpec).flight,
      (certificateMessage config.certificates).length ≤ flight.length := by
  have hauthentication : ∀ transcript, ∃ verify, serverAuthentication ring entropy config
      selected.scheme selected.psk transcript
        = .ok (certificateMessage config.certificates ++ verify) := by
    intro transcript
    obtain ⟨signature, hsignature⟩ := hsign (certificateVerifyContent
      serverCertificateVerifyContext
      ((transcript.add (certificateMessage config.certificates)).hash ring))
    rw [hpsk]
    simp only [serverAuthentication, hsignature, mapErr_ok, ok_bind]
    exact ⟨_, rfl⟩
  choose verify hverify using hauthentication
  simp only [completeHandling, hkx, hrandom, hsecret, mapErr_ok, Handling.after,
    sealer_new lawful, opener_new lawful, hverify, Handling.flight, List.mem_singleton,
    exists_eq_left, List.length_append]
  omega

/-- A hello that every choice succeeds on is answered at once. -/
theorem helloHandling_eq {ring : Ring} {entropy : Entropy} {config : ServerConfig}
    {message : Message} {hello : ClientHello} {suite : CipherSuite} {aead : Aead} {hash : Hash}
    {scheme : SignatureScheme} {shares : List (UInt16 × Bytes)} {group : NamedGroup} {peerKey : Bytes}
    {psk : Option AcceptedPsk} (htyp : message.typ = .clientHello)
    (hparse : ClientHello.parse message.body = .ok hello) (hversion : checkVersion hello = .ok ())
    (hsuite : config.cipherSuites.find? (fun suite => hello.cipherSuites.contains suite.code)
      = some suite)
    (hparts : suite.parts = some (aead, hash)) (hscheme : selectScheme config hello = .ok scheme)
    (hshares : offeredShares hello = .ok shares)
    (hchoice : chooseShare config shares = some (group, peerKey))
    (hpsk : acceptPsk ring config hello message.encoded [] suite hash = .ok psk) :
    helloHandling ring entropy config message
      = completeHandling ring entropy config message.encoded hello
          { suite, aead, hash, scheme, group, peerKey, psk } true := by
  simp only [helloHandling, htyp, ne_eq, not_true_eq_false, refuse_neg _ not_false, Handling.after,
    hparse, mapErr_ok, hversion, hsuite, okOr_some, hparts, hscheme, hshares, hchoice, hpsk]

/-- The answer of the sample server to that hello has its chain in it. -/
theorem flight_withChain (certificates : List Bytes) :
    ∃ flight ∈ (helloHandling .sample (.sample 1) (.withChain certificates)
        (Message.of .clientHello sampleShared.encode)).flight,
      (certificateMessage certificates).length ≤ flight.length := by
  have hparse : ClientHello.parse sampleShared.encode = .ok sampleShared := by decide +kernel
  have hversion : checkVersion sampleShared = .ok () := by decide +kernel
  have hsuite : (ServerConfig.withChain certificates).cipherSuites.find?
      (fun suite => sampleShared.cipherSuites.contains suite.code)
      = some .tlsAes128GcmSha256 := by
    show ServerConfig.sample.cipherSuites.find? _ = _
    decide +kernel
  have hparts : CipherSuite.tlsAes128GcmSha256.parts = some (.aes128Gcm, .sha256) := rfl
  have hscheme : selectScheme (.withChain certificates) sampleShared = .ok .ed25519 := by
    show selectScheme .sample sampleShared = _
    decide +kernel
  have hshares : offeredShares sampleShared = .ok [(0x1d, [3])] := by decide +kernel
  have hchoice : chooseShare (.withChain certificates) [(0x1d, [3])] = some (.x25519, [3]) := by
    show chooseShare .sample _ = _
    decide +kernel
  have hpsk : ∀ encoded head suite hash, acceptPsk .sample (.withChain certificates) sampleShared
      encoded head suite hash = .ok none := by
    intro encoded head suite hash
    have hearly : find sampleShared.extensions ExtensionType.earlyData = none := by decide
    have hnone : find sampleShared.extensions ExtensionType.preSharedKey = none := by decide
    rw [acceptPsk, hearly, refuse_neg _ (by simp), ok_bind, hnone]
  rw [@helloHandling_eq .sample (.sample 1) (.withChain certificates)
    (Message.of .clientHello sampleShared.encode) sampleShared .tlsAes128GcmSha256 .aes128Gcm
    .sha256 .ed25519 [(0x1d, [3])] .x25519 [3] none rfl hparse hversion hsuite hparts hscheme
    hshares hchoice (hpsk _ _ _ _)]
  refine @completeHandling_flight .sample Ring.sample_lawful (.sample 1) (.withChain certificates)
    _ sampleShared _ true ⟨.x25519, [1], beBytes 32 9⟩ (List.replicate 32 1) (beBytes 32 3) ?_ ?_ ?_
    rfl ?_
  · decide +kernel
  · decide +kernel
  · decide +kernel
  · intro content
    exact ⟨_, rfl⟩

theorem certificateMessage_length (certificate : Bytes) :
    (certificateMessage [certificate]).length = 13 + certificate.length := by
  rw [certificateMessage_eq, Message.encode_eq, CertificateMessage.encode_eq]
  simp only [CertificateMessage.ofChain, CertificateMessage.entryBytes, List.map_cons, List.map_nil,
    List.flatMap_cons, List.flatMap_nil, List.append_nil, List.length_cons, prefixed_length,
    List.length_append, List.length_nil]
  omega

/-- The record is answered with that flight. -/
theorem recordFlights_withChain (certificates : List Bytes) : ∃ flight ∈ (endpoint .sample
      (.withChain certificates)).recordFlights .sample (handling .sample (.withChain certificates))
      (.sample 1) ServerHandshake.new sampleSharedRecord,
    (certificateMessage certificates).length ≤ flight.length := by
  have hshort : (Message.encode .clientHello sampleShared.encode).length ≤ maxFragmentLen := by
    decide +kernel
  have hunframe : unframe .sample .awaitClientHello sampleSharedRecord
      = .ok (Message.encode .clientHello sampleShared.encode, .awaitClientHello) :=
    @unframe_clear .sample .awaitClientHello trivial 0x0303 _ hshort
  have hmessages : wholeMessages (Message.encode .clientHello sampleShared.encode)
      = [Message.of .clientHello sampleShared.encode] :=
    wholeMessages_single (@Client.framed_of_short .clientHello rfl _ hshort)
  have hguard : ¬ (ServerHandshake.new.state = (endpoint .sample (.withChain certificates)).failed ∨
      sampleSharedRecord.length < headerLen ∨ sampleSharedRecord.headD 0 = changeCipherSpec) := by
    show ¬ (ServerHandshake.new.state = State.failed ∨ sampleSharedRecord.length < headerLen ∨
      sampleSharedRecord.headD 0 = changeCipherSpec)
    decide +kernel
  obtain ⟨flight, hflight, hlen⟩ := flight_withChain certificates
  refine ⟨flight, ?_, hlen⟩
  rw [Endpoint.recordFlights, if_neg hguard]
  simp only [endpoint, ServerHandshake.new, hunframe, List.nil_append, hmessages]
  rw [Endpoint.flightsOf]
  exact List.mem_append_left _ hflight

/-- A flight with a certificate as long as a record is refused. -/
theorem failsForLength_withChain {certificate : Bytes} (hlen : maxFragmentLen ≤ certificate.length) :
    (endpoint .sample (.withChain [certificate])).FailsForLength (.sample 1) ServerHandshake.new
      sampleSharedRecord := by
  obtain ⟨flight, hflight, hlong⟩ := recordFlights_withChain [certificate]
  rw [certificateMessage_length] at hlong
  refine (Endpoint.failsForLength_iff Ring.sample_complete ServerError.record_injective
    (by simp [endpoint]) (fun entropy s m => handling_result .sample _ entropy s m)
    (fun entropy s m => lengthOnly_handling .sample _ entropy s m) _ _ _).mpr ⟨flight, hflight, ?_⟩
  omega

/-- A chain of one certificate of 16,384 bytes: the server's Certificate fits its length fields,
and its flight is refused. -/
theorem run_failsForLength_chain : ∃ certificate : Bytes, certificate.length = 16384 ∧
    (certificateMessage [certificate]).length < 2 ^ 24 ∧
    (endpoint .sample (.withChain [certificate])).FailsForLength (.sample 1)
      ((endpoint .sample (.withChain [certificate])).run ServerHandshake.new [])
      sampleSharedRecord := by
  obtain ⟨certificate, hlen⟩ : ∃ certificate : Bytes, certificate.length = 16384 :=
    ⟨List.replicate 16384 0, List.length_replicate⟩
  have hmessage := certificateMessage_length certificate
  refine ⟨certificate, hlen, by omega, failsForLength_withChain ?_⟩
  rw [hlen]
  decide

end Server

end RustyTls
