import RustyTls.ClientSteps
import RustyTls.HandshakeCodec
import RustyTls.ServerSteps

/-!
# RustyTls.Fragmentation

A flight may be cut into records anywhere.

What the reassembly loop hands on depends only on the octets that have arrived: the messages
whole in a buffer stay whole when more octets follow (`wholeMessages_append`), and what is left
is the beginning of one message (`unfinished_of_completeHead`). The rest of the argument is about the state.
Between two records only the opener's counter moves, and no handler of an encrypted flight reads
it; nor do the handlers read randomness, but for the one that ends the flight. `Protected` states
this once for both sides, and `passed_eq` concludes that every way of cutting the octets passes
the same messages to the handler.
-/

namespace RustyTls

open Core

/-! ### Buffers that grow -/

/-- Octets that arrive later do not change the messages already whole. -/
theorem wholeMessages_append (buffer later : Bytes) :
    wholeMessages (buffer ++ later)
      = wholeMessages buffer ++ wholeMessages (remainder buffer ++ later) := by
  obtain ⟨-, hframed, -, hsplit⟩ := split_spec buffer
  obtain ⟨-, hframed', hhead', hsplit'⟩ := split_spec (remainder buffer ++ later)
  have hall : ∀ m ∈ wholeMessages buffer ++ wholeMessages (remainder buffer ++ later), Framed m := by
    intro m hm
    rcases List.mem_append.mp hm with hm | hm
    · exact hframed m hm
    · exact hframed' m hm
  have hjoin : buffer ++ later = (wholeMessages buffer ++
      wholeMessages (remainder buffer ++ later)).flatMap (·.encoded) ++
        remainder (remainder buffer ++ later) := by
    rw [List.flatMap_append, List.append_assoc, ← hsplit', ← List.append_assoc, ← hsplit]
  obtain ⟨-, hwhole, -⟩ := split_framed _ hall hhead'
  rwa [← hjoin] at hwhole

/-- The whole messages of a buffer are the octets that `complete_prefix` counted. -/
theorem octets_wholeMessages (buffer : Bytes) :
    octets (wholeMessages buffer) = buffer.take (completePrefix buffer) := by
  obtain ⟨hmessages, -⟩ := split_spec buffer
  exact (messages_iff.mp hmessages).1.symm

/-- The beginning of a message that has not arrived in full. -/
def Unfinished (buffer : Bytes) : Prop :=
  ∃ m, Framed m ∧ buffer <+: m.encoded ∧ buffer.length < m.encoded.length

theorem Unfinished.length_lt {buffer : Bytes} (h : Unfinished buffer) : buffer.length < 2 ^ 24 + 4 := by
  obtain ⟨m, hm, -, hlt⟩ := h
  have hlen := hm.length
  obtain ⟨-, -, hbody, -⟩ := hm
  omega

/-- What completes no message is the beginning of one: the message its header announces, with
zeros for whatever is missing. -/
theorem unfinished_of_completeHead {buffer : Bytes} (h : completeHead buffer = none) :
    Unfinished buffer := by
  obtain ⟨padded, hpadded⟩ : ∃ padded, padded = buffer ++ List.replicate (4 - buffer.length) 0 :=
    ⟨_, rfl⟩
  obtain ⟨total, htotal⟩ : ∃ total, total = beNat ((padded.drop 1).take 3) + 4 := ⟨_, rfl⟩
  obtain ⟨input, hinput⟩ : ∃ input, input = padded ++ List.replicate total 0 := ⟨_, rfl⟩
  have hpaddedLen : 4 ≤ padded.length := by
    rw [hpadded, List.length_append, List.length_replicate]
    omega
  have hfield : (input.drop 1).take 3 = (padded.drop 1).take 3 := by
    rw [hinput, List.drop_append_of_le_length (by omega), List.take_append_of_le_length]
    rw [List.length_drop]
    omega
  have hinputLen : padded.length + total = input.length := by
    rw [hinput, List.length_append, List.length_replicate]
  have hhead : completeHead input = some total := by
    rw [completeHead, if_pos (by omega), hfield, ← htotal, if_neg (by omega)]
  have hshort : buffer.length < total := by
    by_contra hge
    -- the buffer would already hold the message
    have hsame : padded = buffer := by
      rw [hpadded, show 4 - buffer.length = 0 by omega]
      simp
    rw [hsame] at htotal
    have hsome : completeHead buffer = some total := by
      rw [completeHead, if_pos (by omega), ← htotal, if_neg hge]
    rw [h] at hsome
    cases hsome
  obtain ⟨m, hm, henc, -, -⟩ := exists_framed hhead
  have hlen : m.encoded.length = total := by
    rw [henc, List.length_take]
    omega
  refine ⟨m, hm, ?_, by omega⟩
  have hleading : buffer <+: input := by
    rw [hinput, hpadded, List.append_assoc]
    exact List.prefix_append _ _
  rw [henc]
  exact List.prefix_take_iff.mpr ⟨hleading, by omega⟩

/-! ### Records under one key -/

/-- The fragments of records that are all opened as handshake records, one after the other. -/
def Opener.openAll (ring : Ring) : Opener → List Bytes → Option (List Bytes)
  | _, [] => some []
  | opener, record :: records =>
      match opener.openRecord ring record with
      | (.ok ⟨.handshake, fragment⟩, next) => (openAll ring next records).map (fragment :: ·)
      | _ => none

theorem Opener.openAll_cons {ring : Ring} {opener : Opener} {record : Bytes}
    {records fragments : List Bytes} (h : opener.openAll ring (record :: records) = some fragments) :
    ∃ fragment rest next, fragments = fragment :: rest ∧
      opener.openRecord ring record = (.ok ⟨.handshake, fragment⟩, next) ∧
      next.openAll ring records = some rest := by
  rw [openAll] at h
  split at h
  · next fragment next hopen =>
      obtain ⟨rest, hrest, rfl⟩ := Option.map_eq_some_iff.mp h
      exact ⟨fragment, rest, next, rfl, hopen, hrest⟩
  · cases h

/-- A record that opens is whole, of the outer type, and not too long. -/
theorem openRecord_shape {ring : Ring} {opener next : Opener} {record : Bytes} {opened : Opened}
    (h : opener.openRecord ring record = (.ok opened, next)) :
    headerLen ≤ record.length ∧ record.headD 0 = outerType ∧
      record.length = headerLen + Opener.declaredLength record ∧
      Opener.declaredLength record ≤ maxEncryptedFragmentLen := by
  unfold Opener.openRecord at h
  split at h
  · next opened' seq hopening =>
      simp only [Opener.opening, bind_eq_ok, refuse_eq_ok, okOr_eq_ok] at hopening
      obtain ⟨_, hmin, _, houter, _, hlen, _, hmax, -⟩ := hopening
      rw [List.length_drop] at hlen
      exact ⟨by omega, not_not.mp houter, by omega, by omega⟩
  · exact absurd h (by simp)

/-- A phase in which records are protected: which states are in it and under which opener, and
that the handler's course does not depend on the opener, nor on its randomness until the phase
ends. -/
structure Protected {ε σ : Type} (ring : Ring) (endpoint : Endpoint ε σ) where
  /-- The opener of a state of the phase. -/
  opener : σ → Option Opener
  withOpener : Opener → σ → σ
  opener_with : ∀ o s, opener (withOpener o s) = (opener s).map fun _ => o
  unframe_opened : ∀ s o o' record fragment, opener s = some o →
    o.openRecord ring record = (.ok ⟨.handshake, fragment⟩, o') →
    endpoint.unframe s record = .ok (fragment, withOpener o' s)
  handle_with : ∀ entropy s o m, (opener s).isSome →
    endpoint.handle entropy (withOpener o s) m =
      (endpoint.handle entropy s m >>= fun p => .ok (p.1, withOpener o p.2))
  handle_keeps : ∀ entropy s m reply t, endpoint.handle entropy s m = .ok (reply, t) →
    (opener s).isSome → opener t = opener s ∨ opener t = none
  handle_entropy : ∀ s m, (opener s).isSome →
    (∀ entropy entropy', endpoint.handle entropy s m = endpoint.handle entropy' s m) ∨
    ∀ entropy reply t, endpoint.handle entropy s m = .ok (reply, t) → opener t = none
  /-- Nothing is handled once the phase has ended. -/
  handle_ended : ∀ entropy s m reply t, (opener s).isSome →
    endpoint.handle entropy s m = .ok (reply, t) → opener t = none →
    ∀ m', ∃ err, endpoint.handle entropy t m' = .error err
  failed_ended : opener endpoint.failed = none

namespace Protected

variable {ε σ : Type} {ring : Ring} {endpoint : Endpoint ε σ} (phase : Protected ring endpoint)

/-- The messages of a list that are passed to the handler: up to the first one that is refused
and until the phase ends. -/
def passes (handle : σ → Message → Except ε (Bytes × σ)) : σ → List Message → List Message
  | _, [] => []
  | s, m :: ms =>
      if (phase.opener s).isSome then
        m :: match handle s m with
          | .ok (_, t) => passes handle t ms
          | .error _ => []
      else
        []

/-- The messages that a list of records passes to the handler, as long as the phase lasts. -/
def passed [DecidableEq σ] : Reassembling σ → List (Entropy × Bytes) → List Message
  | _, [] => []
  | handshake, (entropy, record) :: rest =>
      if (phase.opener handshake.state).isSome then
        (match endpoint.unframe handshake.state record with
          | .ok (_, state) =>
              phase.passes (endpoint.handle entropy) state (endpoint.received handshake record)
          | .error _ => []) ++
        (match endpoint.readRecord entropy handshake record with
          | (.ok _, next) => passed next rest
          | (.error _, _) => [])
      else
        []

variable {handle : σ → Message → Except ε (Bytes × σ)}

theorem passes_of_none {s : σ} (h : phase.opener s = none) (ms : List Message) :
    phase.passes handle s ms = [] := by
  cases ms with
  | nil => rfl
  | cons m ms => simp [passes, h]

theorem passes_cons_ok {s t : σ} {m : Message} {reply : Bytes} (hs : (phase.opener s).isSome)
    (h : handle s m = .ok (reply, t)) (ms : List Message) :
    phase.passes handle s (m :: ms) = m :: phase.passes handle t ms := by
  simp [passes, hs, h]

/-- A message that is refused or ends the phase is the last one passed. -/
theorem passes_cons_last {s : σ} {m : Message} (hs : (phase.opener s).isSome)
    (h : ∀ reply t, handle s m = .ok (reply, t) → phase.opener t = none) (ms : List Message) :
    phase.passes handle s (m :: ms) = [m] := by
  cases hm : handle s m with
  | error err => simp [passes, hs, hm]
  | ok p =>
      rw [phase.passes_cons_ok hs hm, phase.passes_of_none (h p.1 p.2 hm)]

/-- The course of the handler does not depend on the opener, nor on the randomness. -/
theorem passes_with (entropy entropy' : Entropy) (o : Opener) (s : σ) (ms : List Message) :
    phase.passes (endpoint.handle entropy) (phase.withOpener o s) ms
      = phase.passes (endpoint.handle entropy') s ms := by
  induction ms generalizing s with
  | nil => rfl
  | cons m ms ih =>
      cases hopener : phase.opener s with
      | none =>
          have hwith : phase.opener (phase.withOpener o s) = none := by
            rw [phase.opener_with, hopener]
            rfl
          rw [phase.passes_of_none hopener, phase.passes_of_none hwith]
      | some o' =>
          have hs : (phase.opener s).isSome := by rw [hopener]; rfl
          have hwith : (phase.opener (phase.withOpener o s)).isSome := by
            rw [phase.opener_with, hopener]
            rfl
          have hstep := phase.handle_with entropy s o m hs
          rcases phase.handle_entropy s m hs with hsame | hlast
          · rw [hsame entropy entropy'] at hstep
            cases hm : endpoint.handle entropy' s m with
            | error err =>
                rw [hm, error_bind] at hstep
                rw [phase.passes_cons_last hwith (by rw [hstep]; simp),
                  phase.passes_cons_last hs (by rw [hm]; simp)]
            | ok p =>
                rw [hm, ok_bind] at hstep
                rw [phase.passes_cons_ok hwith hstep, phase.passes_cons_ok hs hm, ih]
          · refine (phase.passes_cons_last hwith (fun reply t ht => ?_) ms).trans
              (phase.passes_cons_last hs (hlast entropy') ms).symm
            rw [hstep, bind_eq_ok] at ht
            obtain ⟨p, hp, heq⟩ := ht
            obtain ⟨-, rfl⟩ := Prod.mk.inj (Except.ok.inj heq)
            rw [phase.opener_with, hlast entropy _ _ hp]
            rfl

/-- The randomness alone. -/
theorem passes_entropy (entropy entropy' : Entropy) (s : σ) (ms : List Message) :
    phase.passes (endpoint.handle entropy) s ms = phase.passes (endpoint.handle entropy') s ms := by
  cases hopener : phase.opener s with
  | none => rw [phase.passes_of_none hopener, phase.passes_of_none hopener]
  | some o =>
      exact (phase.passes_with entropy entropy o s ms).symm.trans
        (phase.passes_with entropy entropy' o s ms)

/-- A list of messages that is refused somewhere passes nothing of what follows. -/
theorem passes_append_error {s : σ} {ms : List Message} {err : ε}
    (h : handleAll handle s ms = .error err) (ms' : List Message) :
    phase.passes handle s (ms ++ ms') = phase.passes handle s ms := by
  induction ms generalizing s err with
  | nil => exact absurd h (by simp)
  | cons m ms ih =>
      rw [List.cons_append]
      cases hopener : phase.opener s with
      | none => rw [phase.passes_of_none hopener, phase.passes_of_none hopener]
      | some o =>
          have hs : (phase.opener s).isSome := by rw [hopener]; rfl
          cases hm : handle s m with
          | error err' =>
              rw [phase.passes_cons_last hs (by rw [hm]; simp),
                phase.passes_cons_last hs (by rw [hm]; simp)]
          | ok p =>
              rw [handleAll_cons, hm, ok_bind] at h
              cases hrest : handleAll handle p.2 ms with
              | error err' =>
                  rw [phase.passes_cons_ok hs hm, phase.passes_cons_ok hs hm, ih hrest]
              | ok q =>
                  rw [hrest, ok_bind] at h
                  exact absurd h (by simp)

/-- Nothing is accepted after the message that ends the phase. -/
theorem eq_nil_of_ended {entropy : Entropy} {s u t : σ} {m : Message} {ms : List Message}
    {reply reply' : Bytes} (hs : (phase.opener s).isSome)
    (hm : endpoint.handle entropy s m = .ok (reply, u)) (hu : phase.opener u = none)
    (h : handleAll (endpoint.handle entropy) u ms = .ok (reply', t)) : ms = [] := by
  cases ms with
  | nil => rfl
  | cons m' ms =>
      obtain ⟨err, herr⟩ := phase.handle_ended _ _ _ _ _ hs hm hu m'
      rw [handleAll_cons, herr, error_bind] at h
      exact absurd h (by simp)

/-- A list of messages that is accepted leaves the opener, or ends the phase. -/
theorem handleAll_keeps {entropy : Entropy} {s t : σ} {ms : List Message} {reply : Bytes}
    (hs : (phase.opener s).isSome)
    (h : handleAll (endpoint.handle entropy) s ms = .ok (reply, t)) :
    phase.opener t = phase.opener s ∨ phase.opener t = none := by
  induction ms generalizing s reply with
  | nil =>
      obtain ⟨-, rfl⟩ : [] = reply ∧ s = t := by simpa using h
      exact .inl rfl
  | cons m ms ih =>
      rw [handleAll_cons, bind_eq_ok] at h
      obtain ⟨⟨reply₁, u⟩, hm, h⟩ := h
      rw [bind_eq_ok] at h
      obtain ⟨⟨reply₂, t'⟩, hrest, heq⟩ := h
      obtain ⟨-, rfl⟩ := Prod.mk.inj (Except.ok.inj heq)
      rcases phase.handle_keeps _ _ _ _ _ hm hs with hsame | hnone
      · rw [← hsame]
        exact ih (hsame ▸ hs) hrest
      · obtain rfl := phase.eq_nil_of_ended hs hm hnone hrest
        obtain ⟨-, rfl⟩ : [] = reply₂ ∧ u = t' := by simpa using hrest
        exact .inr hnone

/-- A list of messages that is accepted to its end passes on to what follows. -/
theorem passes_append_ok {entropy : Entropy} {s t : σ} {ms : List Message} {reply : Bytes}
    (hs : (phase.opener s).isSome)
    (h : handleAll (endpoint.handle entropy) s ms = .ok (reply, t)) (ms' : List Message) :
    phase.passes (endpoint.handle entropy) s (ms ++ ms') =
      phase.passes (endpoint.handle entropy) s ms ++
        phase.passes (endpoint.handle entropy) t ms' := by
  induction ms generalizing s reply with
  | nil =>
      obtain ⟨-, rfl⟩ : [] = reply ∧ s = t := by simpa using h
      rfl
  | cons m ms ih =>
      rw [handleAll_cons, bind_eq_ok] at h
      obtain ⟨⟨reply₁, u⟩, hm, h⟩ := h
      rw [bind_eq_ok] at h
      obtain ⟨⟨reply₂, t'⟩, hrest, heq⟩ := h
      obtain ⟨-, rfl⟩ := Prod.mk.inj (Except.ok.inj heq)
      rw [List.cons_append, phase.passes_cons_ok hs hm, phase.passes_cons_ok hs hm]
      cases hopener : phase.opener u with
      | some o =>
          rw [ih (by rw [hopener]; rfl) hrest]
          rfl
      | none =>
          -- the phase ended here, so there was nothing more to accept
          obtain rfl := phase.eq_nil_of_ended hs hm hopener hrest
          obtain ⟨-, rfl⟩ : [] = reply₂ ∧ u = t' := by simpa using hrest
          simp [passes]

variable [DecidableEq σ]

/-- The records of a phase pass to the handler the messages whole in what they carry, however the
octets were cut. -/
theorem passed_eq (entropy₀ : Entropy) {inputs : List (Entropy × Bytes)} {fragments : List Bytes}
    {s : σ} {o : Opener} {buffer : Bytes} (hs : phase.opener s = some o)
    (hbuffer : completePrefix buffer = 0)
    (hopens : o.openAll ring (inputs.map (·.2)) = some fragments) :
    phase.passed ⟨s, buffer⟩ inputs =
      phase.passes (endpoint.handle entropy₀) s (wholeMessages (buffer ++ fragments.flatten)) := by
  induction inputs generalizing fragments s o buffer with
  | nil =>
      obtain rfl : [] = fragments := Option.some.inj hopens
      rw [List.flatten_nil, List.append_nil, (wholeMessages_of_completePrefix hbuffer).1]
      rfl
  | cons input inputs ih =>
      obtain ⟨entropy, record⟩ := input
      rw [List.map_cons] at hopens
      obtain ⟨fragment, fragments, o', rfl, hopen, hopens⟩ := Opener.openAll_cons hopens
      simp only at hopen
      obtain ⟨hlen, houter, -, -⟩ := openRecord_shape hopen
      have hshort : ¬ record.length < headerLen := by omega
      have hsome : (phase.opener s).isSome := by rw [hs]; rfl
      have hnotFailed : s ≠ endpoint.failed := by
        intro hfailed
        rw [hfailed, phase.failed_ended] at hs
        cases hs
      have hunframe := phase.unframe_opened _ _ _ _ _ hs hopen
      have hccs : ¬ record.headD 0 = changeCipherSpec := by
        rw [houter]
        decide
      have hreceived : endpoint.received ⟨s, buffer⟩ record = wholeMessages (buffer ++ fragment) := by
        rw [Endpoint.received, if_neg (not_or.mpr ⟨hshort, hccs⟩), hunframe]
      have hwhole := wholeMessages_append (buffer ++ fragment) fragments.flatten
      rw [List.append_assoc] at hwhole
      have hwith : phase.opener (phase.withOpener o' s) = some o' := by
        rw [phase.opener_with, hs]
        rfl
      have hwithSome : (phase.opener (phase.withOpener o' s)).isSome := by rw [hwith]; rfl
      rw [passed, if_pos hsome, hunframe, hreceived, List.flatten_cons, hwhole,
        ← phase.passes_with entropy entropy₀ o' s]
      simp only [Endpoint.readRecord, if_neg hnotFailed, Endpoint.readRecordInner,
        if_neg hshort, if_neg hccs, hunframe, ok_bind, drain_eq]
      cases hall : handleAll (endpoint.handle entropy) (phase.withOpener o' s)
          (wholeMessages (buffer ++ fragment)) with
      | error err =>
          rw [phase.passes_append_error hall]
          simp
      | ok p =>
          obtain ⟨reply, t⟩ := p
          rw [phase.passes_append_ok hwithSome hall]
          simp only [ok_bind]
          congr 1
          rcases phase.handleAll_keeps hwithSome hall with hkeeps | hended
          · rw [hwith] at hkeeps
            rw [ih hkeeps (completePrefix_remainder _) hopens, phase.passes_entropy]
          · rw [phase.passes_of_none hended]
            cases inputs with
            | nil => rfl
            | cons input inputs => simp [passed, hended]

end Protected

/-! ### What is left in the buffer -/

section
variable {ε σ : Type} [DecidableEq σ] (endpoint : Endpoint ε σ)

theorem readRecord_unfinished (entropy : Entropy) {handshake : Reassembling σ} (record : Bytes)
    (h : Unfinished handshake.buffer) :
    Unfinished (endpoint.readRecord entropy handshake record).2.buffer := by
  unfold Endpoint.readRecord
  split
  · exact h
  · split
    · next reply next hinner =>
        rcases Endpoint.readRecordInner_inv hinner with ⟨-, rfl, -⟩ | ⟨_, _, -, -, -, hbuffer⟩
        · exact h
        · simp only
          rw [hbuffer]
          exact unfinished_of_completeHead (split_spec _).2.2.1
    · exact h

/-- After any records, the buffer is the beginning of one message. -/
theorem run_unfinished {handshake : Reassembling σ} (h : Unfinished handshake.buffer)
    (inputs : List (Entropy × Bytes)) : Unfinished (endpoint.run handshake inputs).buffer := by
  induction inputs generalizing handshake with
  | nil => exact h
  | cons input inputs ih => exact ih (readRecord_unfinished endpoint input.1 input.2 h)

end

/-! ### The client -/

namespace Client

/-- The opener of a client that is reading the encrypted flight. -/
def flightOpener : State → Option Opener
  | .inFlight _ negotiated => some negotiated.opener
  | _ => none

def withOpener (opener : Opener) : State → State
  | .inFlight expect negotiated => .inFlight expect { negotiated with opener }
  | state => state

variable {ring : Ring} {config : ClientConfig}

theorem flightOpener_isSome {s : State} (h : (flightOpener s).isSome) :
    ∃ expect negotiated, s = .inFlight expect negotiated := by
  cases s with
  | inFlight expect negotiated => exact ⟨expect, negotiated, rfl⟩
  | awaitServerHello awaiting => cases h
  | done connection => cases h
  | failed => cases h

theorem handleFlightMessage_with (entropy : Entropy) (expect : Expect) (negotiated : Negotiated)
    (opener : Opener) (message : Message) :
    handleFlightMessage ring entropy config expect { negotiated with opener } message =
      (handleFlightMessage ring entropy config expect negotiated message >>= fun p =>
        .ok (p.1, withOpener opener p.2)) := by
  unfold handleFlightMessage
  split
  · simp only [handleCertificateRequest, bind_assoc, ok_bind, withOpener]
  · split
    · simp only [handleEncryptedExtensions, bind_assoc, ok_bind, withOpener]
    · simp only [handleCertificate, bind_assoc, ok_bind, withOpener]
    · simp only [handleCertificateVerify, checkPeer, bind_assoc, ok_bind, withOpener]
    · simp only [finish, clientAuthentication, bind_assoc, ok_bind, withOpener]
    · rfl

/-- A message of the flight leaves the client in it with the same opener, or done. -/
theorem handleFlightMessage_next {entropy : Entropy} {expect : Expect} {negotiated : Negotiated}
    {message : Message} {reply : Bytes} {next : State}
    (h : handleFlightMessage ring entropy config expect negotiated message = .ok (reply, next)) :
    flightOpener next = some negotiated.opener ∨ ∃ connection, next = .done connection := by
  rcases flight_next h with ⟨-, -, -, _, _, _, _, rfl⟩ | ⟨-, -, h⟩
  · exact .inl rfl
  · obtain ⟨_, connection, -, -, -, rfl, -⟩ := finish_inv h
    exact .inr ⟨connection, rfl⟩

/-- Only the Finished draws randomness, and it is the last message. -/
theorem handleFlightMessage_entropy (expect : Expect) (negotiated : Negotiated) (message : Message) :
    (∀ entropy entropy', handleFlightMessage ring entropy config expect negotiated message
      = handleFlightMessage ring entropy' config expect negotiated message) ∨
    ∀ entropy reply next, handleFlightMessage ring entropy config expect negotiated message
      = .ok (reply, next) → flightOpener next = none := by
  by_cases hlast : expect = .finished ∧ message.typ = .finished
  · obtain ⟨rfl, htyp⟩ := hlast
    right
    intro entropy reply next h
    have hfinish : handleFlightMessage ring entropy config .finished negotiated message
        = finish ring entropy config negotiated message := by
      simp [handleFlightMessage, htyp]
    rw [hfinish] at h
    obtain ⟨_, _, -, -, -, rfl, -⟩ := finish_inv h
    rfl
  · left
    intro entropy entropy'
    unfold handleFlightMessage
    split
    · rfl
    · split
      · rfl
      · rfl
      · rfl
      · next htyp => exact absurd ⟨rfl, htyp⟩ hlast
      · rfl

/-- The encrypted flight, as the client reads it. -/
def flightPhase (ring : Ring) (config : ClientConfig) : Protected ring (endpoint ring config) where
  opener := flightOpener
  withOpener := withOpener
  opener_with := by
    intro o s
    cases s <;> rfl
  unframe_opened := by
    intro s o o' record fragment hs hopen
    obtain ⟨expect, negotiated, rfl⟩ := flightOpener_isSome (Option.isSome_of_eq_some hs)
    obtain rfl := Option.some.inj hs
    obtain ⟨-, -, hlen, hmax⟩ := openRecord_shape hopen
    show unframe ring (.inFlight expect negotiated) record = _
    simp only [unframe, checkPlaintextAlert, ok_bind]
    rw [refuse_neg _ (not_not.mpr hlen), ok_bind, refuse_neg _ (Nat.not_lt.mpr hmax), ok_bind,
      fragmentOf, hopen]
    rfl
  handle_with := by
    intro entropy s o m hs
    obtain ⟨expect, negotiated, rfl⟩ := flightOpener_isSome hs
    exact handleFlightMessage_with entropy expect negotiated o m
  handle_keeps := by
    intro entropy s m reply t h hs
    obtain ⟨expect, negotiated, rfl⟩ := flightOpener_isSome hs
    rcases handleFlightMessage_next h with hsame | ⟨connection, rfl⟩
    · exact .inl hsame
    · exact .inr rfl
  handle_entropy := by
    intro s m hs
    obtain ⟨expect, negotiated, rfl⟩ := flightOpener_isSome hs
    exact handleFlightMessage_entropy expect negotiated m
  handle_ended := by
    intro entropy s m reply t hs h ht m'
    obtain ⟨expect, negotiated, rfl⟩ := flightOpener_isSome hs
    rcases handleFlightMessage_next h with hsame | ⟨connection, rfl⟩
    · rw [hsame] at ht
      cases ht
    · exact ⟨.failed, rfl⟩
  failed_ended := rfl

end Client

/-! ### The server -/

namespace Server

/-- The opener of a server that is reading the client's flight. -/
def flightOpener : State → Option Opener
  | .awaitFinished negotiated => some negotiated.opener
  | _ => none

def withOpener (opener : Opener) : State → State
  | .awaitFinished negotiated => .awaitFinished { negotiated with opener }
  | state => state

variable {ring : Ring} {config : ServerConfig}

theorem flightOpener_isSome {s : State} (h : (flightOpener s).isSome) :
    ∃ negotiated, s = .awaitFinished negotiated := by
  cases s with
  | awaitFinished negotiated => exact ⟨negotiated, rfl⟩
  | awaitClientHello => cases h
  | awaitRetriedClientHello retrying => cases h
  | done connection => cases h
  | failed => cases h

theorem handleCertificate_with (negotiated : Negotiated) (opener : Opener) (message : Message) :
    handleCertificate ring config { negotiated with opener } message =
      (handleCertificate ring config negotiated message >>= fun p =>
        .ok (p.1, withOpener opener p.2)) := by
  simp only [handleCertificate, bind_assoc]
  congr 1
  funext certificate
  congr 1
  funext auth
  split
  · simp only [emptyCertificate, bind_assoc, ok_bind, withOpener]
  · simp only [certificateChain, bind_assoc, ok_bind, withOpener]

theorem issueLoop_with (entropy : Entropy) (tickets : Tickets) (negotiated : Negotiated)
    (opener : Opener) (resumptionMaster : Bytes) (remaining k : Nat) :
    issueLoop ring entropy config tickets { negotiated with opener } resumptionMaster remaining k =
      issueLoop ring entropy config tickets negotiated resumptionMaster remaining k := by
  induction remaining generalizing k with
  | zero => rfl
  | succ remaining ih =>
      rw [issueLoop, issueLoop, ih]
      rfl

theorem issueTickets_with (entropy : Entropy) (negotiated : Negotiated) (opener : Opener)
    (sealer : Sealer) :
    issueTickets ring entropy config { negotiated with opener } sealer =
      issueTickets ring entropy config negotiated sealer := by
  simp only [issueTickets, issueLoop_with]

theorem handleFinished_with (entropy : Entropy) (negotiated : Negotiated) (opener : Opener)
    (message : Message) :
    handleFinished ring entropy config { negotiated with opener } message =
      (handleFinished ring entropy config negotiated message >>= fun p =>
        .ok (p.1, withOpener opener p.2)) := by
  have htickets : ∀ sealer, issueTickets ring entropy config
      { negotiated with opener, transcript := negotiated.transcript.addMessage message } sealer =
      issueTickets ring entropy config
        { negotiated with transcript := negotiated.transcript.addMessage message } sealer :=
    fun sealer => issueTickets_with entropy
      { negotiated with transcript := negotiated.transcript.addMessage message } opener sealer
  simp only [handleFinished, htickets, bind_assoc, ok_bind, withOpener]

theorem clientFlight_with (entropy : Entropy) (negotiated : Negotiated) (opener : Opener)
    (message : Message) :
    clientFlight ring entropy config { negotiated with opener } message =
      (clientFlight ring entropy config negotiated message >>= fun p =>
        .ok (p.1, withOpener opener p.2)) := by
  simp only [clientFlight, handleCertificate_with, handleFinished_with]
  split
  · rfl
  · simp only [handleCertificateVerify, bind_assoc, ok_bind, withOpener]
  · rfl
  · rfl
  · rfl

/-- A message of the client's flight leaves the server waiting with the same opener, or done. -/
theorem clientFlight_next {entropy : Entropy} {negotiated : Negotiated} {message : Message}
    {reply : Bytes} {next : State}
    (h : clientFlight ring entropy config negotiated message = .ok (reply, next)) :
    flightOpener next = some negotiated.opener ∨ ∃ connection, next = .done connection := by
  rcases flight_next h with ⟨-, -, -, _, _, _, rfl⟩ | ⟨-, -, h⟩
  · exact .inl rfl
  · obtain ⟨_, _, _, -, -, rfl⟩ := handleFinished_inv h
    exact .inr ⟨_, rfl⟩

/-- Only the Finished draws randomness, and it is the last message. -/
theorem clientFlight_entropy (negotiated : Negotiated) (message : Message) :
    (∀ entropy entropy', clientFlight ring entropy config negotiated message
      = clientFlight ring entropy' config negotiated message) ∨
    ∀ entropy reply next, clientFlight ring entropy config negotiated message
      = .ok (reply, next) → flightOpener next = none := by
  by_cases htyp : message.typ = .finished
  · right
    intro entropy reply next h
    rcases flight_next h with ⟨-, hother, -⟩ | ⟨-, -, h⟩
    · exact absurd htyp hother
    · obtain ⟨_, _, _, -, -, rfl⟩ := handleFinished_inv h
      rfl
  · left
    intro entropy entropy'
    unfold clientFlight
    split
    · rfl
    · rfl
    · next hfinished => exact absurd hfinished htyp
    · next hfinished => exact absurd hfinished htyp
    · rfl

/-- The client's flight, as the server reads it. -/
def flightPhase (ring : Ring) (config : ServerConfig) : Protected ring (endpoint ring config) where
  opener := flightOpener
  withOpener := withOpener
  opener_with := by
    intro o s
    cases s <;> rfl
  unframe_opened := by
    intro s o o' record fragment hs hopen
    obtain ⟨negotiated, rfl⟩ := flightOpener_isSome (Option.isSome_of_eq_some hs)
    obtain rfl := Option.some.inj hs
    obtain ⟨-, -, hlen, hmax⟩ := openRecord_shape hopen
    show unframe ring (.awaitFinished negotiated) record = _
    simp only [unframe]
    rw [refuse_neg _ (not_not.mpr hlen), ok_bind, refuse_neg _ (Nat.not_lt.mpr hmax), ok_bind,
      fragmentOf, hopen]
    rfl
  handle_with := by
    intro entropy s o m hs
    obtain ⟨negotiated, rfl⟩ := flightOpener_isSome hs
    exact clientFlight_with entropy negotiated o m
  handle_keeps := by
    intro entropy s m reply t h hs
    obtain ⟨negotiated, rfl⟩ := flightOpener_isSome hs
    rcases clientFlight_next h with hsame | ⟨connection, rfl⟩
    · exact .inl hsame
    · exact .inr rfl
  handle_entropy := by
    intro s m hs
    obtain ⟨negotiated, rfl⟩ := flightOpener_isSome hs
    exact clientFlight_entropy negotiated m
  handle_ended := by
    intro entropy s m reply t hs h ht m'
    obtain ⟨negotiated, rfl⟩ := flightOpener_isSome hs
    rcases clientFlight_next h with hsame | ⟨connection, rfl⟩
    · rw [hsame] at ht
      cases ht
    · exact ⟨.failed, rfl⟩
  failed_ended := rfl

end Server

/-! ### Any two ways of cutting -/

/-- In a protected phase, whatever the records that carry some octets, the same messages are
passed to the handler; and after each record the buffer is the beginning of one message. -/
def Uncut {ε σ : Type} [DecidableEq σ] {ring : Ring} {endpoint : Endpoint ε σ}
    (phase : Protected ring endpoint) (handshake : Reassembling σ) (opener : Opener) : Prop :=
  ∀ (inputs inputs' : List (Entropy × Bytes)) (fragments fragments' : List Bytes),
    opener.openAll ring (inputs.map (·.2)) = some fragments →
    opener.openAll ring (inputs'.map (·.2)) = some fragments' →
    fragments.flatten = fragments'.flatten →
    phase.passed handshake inputs = phase.passed handshake inputs' ∧
    ∀ k, Unfinished (endpoint.run handshake (inputs.take k)).buffer ∧
      (endpoint.run handshake (inputs.take k)).buffer.length < 2 ^ 24 + 4

theorem Protected.uncut {ε σ : Type} [DecidableEq σ] {ring : Ring} {endpoint : Endpoint ε σ}
    (phase : Protected ring endpoint) {s : σ} {o : Opener} {buffer : Bytes}
    (hs : phase.opener s = some o) (hbuffer : completePrefix buffer = 0) :
    Uncut phase ⟨s, buffer⟩ o := by
  intro inputs inputs' fragments fragments' hopens hopens' hsame
  refine ⟨?_, fun k => ?_⟩
  · rw [phase.passed_eq (.sample 0) hs hbuffer hopens,
      phase.passed_eq (.sample 0) hs hbuffer hopens', hsame]
  · have hhead : completeHead buffer = none := by
      have hnone := (split_spec buffer).2.2.1
      rwa [(wholeMessages_of_completePrefix hbuffer).2] at hnone
    have hstart : Unfinished (Reassembling.mk s buffer).buffer := unfinished_of_completeHead hhead
    have hrun := run_unfinished endpoint hstart (inputs.take k)
    exact ⟨hrun, hrun.length_lt⟩

/-- The handshake phase does not depend on how a flight is cut into records: from any client in
the encrypted flight and any server waiting for the client's, with no whole message in the
buffer. The two scanners agree on every buffer, and the messages tile what they consume. -/
theorem fragmentation_independent (ring : Ring) (client : Client.ClientConfig)
    (server : Server.ServerConfig) {buffer : Bytes} (hbuffer : completePrefix buffer = 0) :
    (∀ expect negotiated,
      Uncut (Client.flightPhase ring client) ⟨.inFlight expect negotiated, buffer⟩
        negotiated.opener) ∧
    (∀ negotiated,
      Uncut (Server.flightPhase ring server) ⟨.awaitFinished negotiated, buffer⟩
        negotiated.opener) ∧
    (∀ input : Bytes, messages (input.take (completePrefix input)) = .ok (wholeMessages input) ∧
      octets (wholeMessages input) = input.take (completePrefix input) ∧
      ∀ m ∈ wholeMessages input, m.encoded = Message.encode m.typ m.body) := by
  refine ⟨fun expect negotiated => ?_, fun negotiated => ?_, fun input => ?_⟩
  · exact (Client.flightPhase ring client).uncut rfl hbuffer
  · exact (Server.flightPhase ring server).uncut rfl hbuffer
  · obtain ⟨hmessages, hframed, -⟩ := split_spec input
    exact ⟨hmessages, octets_wholeMessages input, fun m hm => (hframed m hm).encoded_eq⟩

/-- A client at the beginning of the encrypted flight, for running the model. -/
def Client.Negotiated.sample : Client.Negotiated where
  suite := .tlsAes128GcmSha256
  aead := .aes128Gcm
  hash := .sha256
  transcript := ⟨.sha256, []⟩
  schedule := ⟨.sha256, []⟩
  clientHandshakeSecret := []
  serverHandshakeSecret := []
  opener := ⟨⟨.aes128Gcm, List.replicate 16 1, List.replicate 12 2, rfl, rfl⟩, .startingAt 0⟩
  certificates := []
  certificateTranscript := []
  certificateRequest := none
  resumed := false

/-- The records its peer seals around these fragments. -/
def sealAll (ring : Ring) : Sealer → List Bytes → List Bytes
  | _, [] => []
  | sealer, fragment :: fragments =>
      match sealer.sealRecord ring .handshake fragment 0 with
      | (.ok record, sealer) => record :: sealAll ring sealer fragments
      | (.error _, _) => []

/-- An EncryptedExtensions in one record, and in two with the cut inside its header: the same
message is passed on. -/
theorem fragmentation_independent_sample :
    let phase := Client.flightPhase .sample .sample
    let client : Client.ClientHandshake := ⟨.inFlight .encryptedExtensions .sample, []⟩
    let key := Client.Negotiated.sample.opener.key
    let deliver := fun fragments =>
      (sealAll .sample ⟨key, .startingAt 0⟩ fragments).map fun record => (Entropy.sample 0, record)
    phase.passed client (deliver [[8, 0, 0, 2, 0, 0]]) =
        phase.passed client (deliver [[8, 0], [0, 2, 0, 0]]) ∧
      phase.passed client (deliver [[8, 0, 0, 2, 0, 0]]) = [.of .encryptedExtensions [0, 0]] := by
  intro phase client key deliver
  have hone : Client.Negotiated.sample.opener.openAll .sample
      ((deliver [[8, 0, 0, 2, 0, 0]]).map (·.2)) = some [[8, 0, 0, 2, 0, 0]] := by decide +kernel
  have htwo : Client.Negotiated.sample.opener.openAll .sample
      ((deliver [[8, 0], [0, 2, 0, 0]]).map (·.2)) = some [[8, 0], [0, 2, 0, 0]] := by decide +kernel
  refine ⟨((fragmentation_independent .sample .sample .sample rfl).1 _ _ _ _ _ _ hone htwo rfl).1, ?_⟩
  decide +kernel

end RustyTls
