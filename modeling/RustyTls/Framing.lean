import RustyTls.Handshake

/-!
# RustyTls.Framing

What the reassembly loop does to a buffer, independent of who handles the messages.

A buffer is a run of whole messages followed by the beginning of another. `wholeMessages` and
`remainder` name the two parts, `split_spec` says that they are what they should be, and
`drain_eq` reduces the loop of both handshakes to handling `wholeMessages` one after the
other. `handleAll_induct` is then the invariant rule for a whole buffer.
-/

namespace RustyTls

open Core

/-- A message as it comes off the wire: a type octet, three octets of length, the body. -/
def Framed (m : Message) : Prop :=
  ∃ typ : UInt8, m.typ = .fromU8 typ ∧ m.body.length < 2 ^ 24 ∧
    m.encoded = typ :: (beBytes 3 m.body.length ++ m.body)

theorem Framed.length {m : Message} (h : Framed m) : m.encoded.length = m.body.length + 4 := by
  obtain ⟨typ, -, -, henc⟩ := h
  simp [henc]
  omega

/-! ### The head of a buffer -/

theorem completeHead_eq_some {input : Bytes} {total : Nat} (h : completeHead input = some total) :
    4 ≤ total ∧ total ≤ input.length ∧ beNat ((input.drop 1).take 3) + 4 = total := by
  simp only [completeHead] at h
  split at h
  · split at h
    · simp at h
    · next hlt =>
        obtain rfl := Option.some.inj h
        omega
  · simp at h

theorem completeHead_framed {m : Message} (h : Framed m) (rest : Bytes) :
    completeHead (m.encoded ++ rest) = some m.encoded.length := by
  have hlen := h.length
  obtain ⟨typ, -, hlt, henc⟩ := h
  have hfield : ((m.encoded ++ rest).drop 1).take 3 = beBytes 3 m.body.length := by
    simp [henc]
  have hval : beNat (beBytes 3 m.body.length) = m.body.length := beNat_beBytes (by simpa using hlt)
  simp only [completeHead, hfield, hval, List.length_append]
  rw [if_pos (by omega), if_neg (by omega), hlen]

/-- The message at the head of a buffer that holds all of it. -/
theorem exists_framed {input : Bytes} {total : Nat} (h : completeHead input = some total) :
    ∃ m, Framed m ∧ m.encoded = input.take total ∧ m.body = (input.take total).drop 4 ∧
      input = m.encoded ++ input.drop total := by
  obtain ⟨hge, hle, htotal⟩ := completeHead_eq_some h
  obtain ⟨typ, a, b, c, tail, rfl⟩ : ∃ typ a b c tail, input = typ :: a :: b :: c :: tail := by
    match input, hge, hle with
    | typ :: a :: b :: c :: tail, _, _ => exact ⟨typ, a, b, c, tail, rfl⟩
    | [], hge, hle | [_], hge, hle | [_, _], hge, hle | [_, _, _], hge, hle =>
        simp only [List.length_cons, List.length_nil] at hle
        omega
  obtain ⟨n, rfl⟩ : ∃ n, total = n + 4 := ⟨total - 4, by omega⟩
  have hn : beNat [a, b, c] = n := by simpa using htotal
  have hlen : (tail.take n).length = n := by
    simp only [List.length_cons] at hle
    simp
    omega
  have hbytes : beBytes 3 n = [a, b, c] := by rw [← hn]; exact beBytes_beNat [a, b, c]
  refine ⟨⟨.fromU8 typ, tail.take n, typ :: a :: b :: c :: tail.take n⟩, ⟨typ, rfl, ?_, ?_⟩, ?_, ?_, ?_⟩
  · rw [hlen, ← hn]
    simpa using beNat_lt [a, b, c]
  · simp only [hlen, hbytes, List.cons_append, List.nil_append]
  · simp
  · simp
  · simp

theorem nextMessage_framed {m : Message} (h : Framed m) (out : List Message) (rest : Bytes) :
    nextMessage out (m.encoded ++ rest) = .ok (out ++ [m], rest) := by
  have hlen := h.length
  obtain ⟨typ, htyp, hlt, henc⟩ := h
  have hread : (Reader.mk (m.encoded ++ rest)).u8
      = .ok (typ, ⟨beBytes 3 m.body.length ++ (m.body ++ rest)⟩) := by
    rw [henc, List.cons_append, Reader.u8_append, List.append_assoc]
  have htake : (m.encoded ++ rest).take (m.body.length + 4) = m.encoded := by
    rw [← hlen, List.take_left]
  have hdrop : (m.encoded ++ rest).drop (m.body.length + 4) = rest := by
    rw [← hlen, List.drop_left]
  have hbody : m.encoded.drop 4 = m.body := by
    rw [henc]
    simp
  have hshort : ¬ (m.encoded ++ rest).length < m.body.length + 4 := by
    simp [hlen]
  rw [nextMessage, hread]
  simp only [wire, mapErr_ok, ok_bind, Reader.u24_append hlt]
  rw [refuse_neg _ hshort, ok_bind, htake, hdrop, hbody, ← htyp]

theorem nextMessage_iff (out : List Message) (input : Bytes) (out' : List Message) (rest : Bytes) :
    nextMessage out input = .ok (out', rest) ↔
      ∃ m, out' = out ++ [m] ∧ input = m.encoded ++ rest ∧ Framed m := by
  constructor
  · intro h
    simp only [nextMessage, wire, bind_eq_ok, mapErr_eq_ok, refuse_eq_ok] at h
    obtain ⟨⟨typ, r⟩, hu8, ⟨declared, r'⟩, hu24, _, hlen, heq⟩ := h
    obtain ⟨rfl, rfl⟩ := Prod.mk.inj (Except.ok.inj heq)
    have hinput : input = typ :: r.rest := Reader.u8_ok hu8
    obtain ⟨hrest, hlt⟩ := Reader.u24_ok hu24
    have hsplit : input = typ :: (beBytes 3 declared ++ r'.rest) := by rw [hinput, hrest]
    have hlen' : declared ≤ r'.rest.length := by
      rw [hsplit] at hlen
      simp only [List.length_cons, List.length_append, beBytes_length] at hlen
      omega
    have htake : input.take (declared + 4) = typ :: (beBytes 3 declared ++ r'.rest.take declared) := by
      rw [hsplit, List.take_succ_cons, List.take_append, beBytes_length, Nat.add_sub_cancel,
        List.take_of_length_le (by rw [beBytes_length]; omega)]
    have hbody : (input.take (declared + 4)).drop 4 = r'.rest.take declared := by
      rw [htake, List.drop_succ_cons]
      exact List.drop_left' (beBytes_length 3 declared)
    have hbodyLen : (r'.rest.take declared).length = declared := by
      rw [List.length_take]
      omega
    refine ⟨⟨.fromU8 typ, r'.rest.take declared, input.take (declared + 4)⟩, by rw [hbody],
      (List.take_append_drop _ _).symm, typ, rfl, ?_, ?_⟩
    · rw [hbodyLen]
      exact hlt
    · rw [hbodyLen]
      exact htake
  · intro h
    obtain ⟨m, rfl, rfl, hm⟩ := h
    exact nextMessage_framed hm out rest

theorem nextMessage_consuming : Consuming (nextMessage) := by
  intro out input out' rest h
  obtain ⟨m, -, rfl, hm⟩ := (nextMessage_iff _ _ _ _).mp h
  rw [List.length_append, hm.length]
  omega

/-- `messages` accepts exactly whole messages, back to back, and splits them where they were
joined. -/
theorem messages_iff {input : Bytes} {ms : List Message} :
    messages input = .ok ms ↔ input = ms.flatMap (·.encoded) ∧ ∀ m ∈ ms, Framed m :=
  consume_each nextMessage_consuming nextMessage_iff

theorem messages_framed (ms : List Message) (h : ∀ m ∈ ms, Framed m) :
    messages (ms.flatMap (·.encoded)) = .ok ms := messages_iff.mpr ⟨rfl, h⟩

/-! ### The loop of `complete_prefix` -/

/-- Any fuel covering the input gives the same result. -/
theorem completePrefixLoop_eq : ∀ (m n : Nat) (input : Bytes), input.length ≤ m →
    input.length ≤ n → completePrefixLoop m input = completePrefixLoop n input := by
  have hnil : ∀ n, completePrefixLoop n [] = 0 := by
    intro n
    cases n <;> rfl
  intro m
  induction m with
  | zero =>
      intro n input hm _
      obtain rfl : input = [] := List.length_eq_zero_iff.mp (by omega)
      rw [hnil, hnil]
  | succ m ih =>
      intro n input hm hn
      cases n with
      | zero =>
          obtain rfl : input = [] := List.length_eq_zero_iff.mp (by omega)
          rw [hnil, hnil]
      | succ n =>
          rw [completePrefixLoop, completePrefixLoop]
          cases hhead : completeHead input with
          | none => rfl
          | some total =>
              obtain ⟨hge, hle, -⟩ := completeHead_eq_some hhead
              have hlen : (input.drop total).length = input.length - total := List.length_drop ..
              simp only
              rw [ih n (input.drop total) (by omega) (by omega)]

theorem completePrefix_of_none {input : Bytes} (h : completeHead input = none) :
    completePrefix input = 0 := by
  rw [completePrefix]
  cases hn : input.length with
  | zero => rfl
  | succ n => rw [completePrefixLoop, h]

theorem completePrefix_of_some {input : Bytes} {total : Nat} (h : completeHead input = some total) :
    completePrefix input = total + completePrefix (input.drop total) := by
  obtain ⟨hge, hle, -⟩ := completeHead_eq_some h
  have hlen : (input.drop total).length = input.length - total := List.length_drop ..
  obtain ⟨n, hn⟩ : ∃ n, input.length = n + 1 := ⟨input.length - 1, by omega⟩
  rw [completePrefix, hn, completePrefixLoop, h]
  simp only
  rw [completePrefix, completePrefixLoop_eq n _ _ (by omega) (Nat.le_refl _)]

theorem completePrefix_framed (ms : List Message) (h : ∀ m ∈ ms, Framed m) {rest : Bytes}
    (hrest : completeHead rest = none) :
    completePrefix (ms.flatMap (·.encoded) ++ rest) = (ms.flatMap (·.encoded)).length := by
  induction ms with
  | nil => simpa using completePrefix_of_none hrest
  | cons m ms ih =>
      have hhead := completeHead_framed (h m (List.mem_cons_self ..)) (ms.flatMap (·.encoded) ++ rest)
      have htail := ih (fun m' hm' => h m' (List.mem_cons_of_mem _ hm'))
      rw [List.flatMap_cons, List.append_assoc, completePrefix_of_some hhead, List.drop_left, htail,
        List.length_append]

/-! ### Splitting a buffer -/

/-- The whole messages at the head of a buffer. -/
def wholeMessages (buffer : Bytes) : List Message :=
  match messages (buffer.take (completePrefix buffer)) with
  | .ok ms => ms
  | .error _ => []

/-- What follows them. -/
def remainder (buffer : Bytes) : Bytes := buffer.drop (completePrefix buffer)

theorem exists_split (buffer : Bytes) :
    ∃ (ms : List Message) (rest : Bytes), (∀ m ∈ ms, Framed m) ∧ completeHead rest = none ∧
      buffer = ms.flatMap (·.encoded) ++ rest := by
  -- Each message taken off shortens the buffer.
  induction hn : buffer.length using Nat.strong_induction_on generalizing buffer with
  | _ n ih =>
      cases hhead : completeHead buffer with
      | none => exact ⟨[], buffer, by simp, hhead, by simp⟩
      | some total =>
          obtain ⟨hge, hle, -⟩ := completeHead_eq_some hhead
          obtain ⟨m, hm, -, -, hbuffer⟩ := exists_framed hhead
          have hlen : (buffer.drop total).length = buffer.length - total := List.length_drop ..
          obtain ⟨ms, rest, hms, hrest, hsplit⟩ := ih _ (by omega) (buffer.drop total) rfl
          refine ⟨m :: ms, rest, ?_, hrest, ?_⟩
          · intro m' hm'
            rcases List.mem_cons.mp hm' with hm' | hm'
            · exact hm' ▸ hm
            · exact hms m' hm'
          · rw [List.flatMap_cons, List.append_assoc, ← hsplit]
            exact hbuffer

theorem split_framed (ms : List Message) (h : ∀ m ∈ ms, Framed m) {rest : Bytes}
    (hrest : completeHead rest = none) :
    messages ((ms.flatMap (·.encoded) ++ rest).take (completePrefix (ms.flatMap (·.encoded) ++ rest)))
        = .ok ms ∧
      wholeMessages (ms.flatMap (·.encoded) ++ rest) = ms ∧
      remainder (ms.flatMap (·.encoded) ++ rest) = rest := by
  have hfront := completePrefix_framed ms h hrest
  have hmessages : messages ((ms.flatMap (·.encoded) ++ rest).take
      (completePrefix (ms.flatMap (·.encoded) ++ rest))) = .ok ms := by
    rw [hfront, List.take_left, messages_framed ms h]
  refine ⟨hmessages, ?_, ?_⟩
  · rw [wholeMessages, hmessages]
  · rw [remainder, hfront, List.drop_left]

/-- A buffer of one message. -/
theorem wholeMessages_single {m : Message} (h : Framed m) : wholeMessages m.encoded = [m] := by
  have hsplit := (@split_framed [m] (by simpa using h) [] rfl).2.1
  simpa using hsplit

/-- A buffer is its whole messages and the beginning of another. -/
theorem split_spec (buffer : Bytes) :
    messages (buffer.take (completePrefix buffer)) = .ok (wholeMessages buffer) ∧
      (∀ m ∈ wholeMessages buffer, Framed m) ∧ completeHead (remainder buffer) = none ∧
      buffer = (wholeMessages buffer).flatMap (·.encoded) ++ remainder buffer := by
  obtain ⟨ms, rest, hms, hrest, hbuffer⟩ := exists_split buffer
  obtain ⟨hmessages, hwhole, hremainder⟩ := split_framed ms hms hrest
  rw [← hbuffer] at hmessages hwhole hremainder
  rw [hwhole, hremainder]
  exact ⟨hmessages, hms, hrest, hbuffer⟩

theorem completePrefix_remainder (buffer : Bytes) : completePrefix (remainder buffer) = 0 :=
  completePrefix_of_none (split_spec buffer).2.2.1

theorem wholeMessages_of_completePrefix {buffer : Bytes} (h : completePrefix buffer = 0) :
    wholeMessages buffer = [] ∧ remainder buffer = buffer := by
  have hnil : messages [] = .ok [] := rfl
  simp [wholeMessages, remainder, h, hnil]

/-- The octets of a list of messages. -/
def octets (ms : List Message) : Bytes := ms.flatMap (·.encoded)

@[simp] theorem octets_nil : octets [] = [] := rfl

@[simp] theorem octets_cons (m : Message) (ms : List Message) :
    octets (m :: ms) = m.encoded ++ octets ms := rfl

@[simp] theorem octets_append (ms ms' : List Message) :
    octets (ms ++ ms') = octets ms ++ octets ms' := by
  simp [octets]

/-! ### Draining -/

section Drain

variable {ε σ : Type} {handle : σ → Message → Except ε (Bytes × σ)}

theorem drainLoop_of_zero (fromHandshake : HandshakeError → ε) (fuel : Nat) (s : σ) {buffer : Bytes}
    (h : completePrefix buffer = 0) :
    drainLoop fromHandshake handle fuel s buffer = .ok ([], s, buffer) := by
  cases fuel with
  | zero => rfl
  | succ fuel => simp [drainLoop, h]

/-- The reassembly loop handles the whole messages in order and keeps the rest. -/
theorem drain_eq (fromHandshake : HandshakeError → ε) (s : σ) (buffer : Bytes) :
    drain fromHandshake handle s buffer =
      (handleAll handle s (wholeMessages buffer) >>= fun p =>
        .ok (p.1, p.2, remainder buffer)) := by
  by_cases hzero : completePrefix buffer = 0
  · obtain ⟨hwhole, hrest⟩ := wholeMessages_of_completePrefix hzero
    rw [drain, drainLoop_of_zero _ _ _ hzero, hwhole, hrest]
    rfl
  · have hne : buffer ≠ [] := by
      intro hnil
      rw [hnil] at hzero
      exact hzero rfl
    obtain ⟨b, bs, rfl⟩ := List.exists_cons_of_ne_nil hne
    rw [drain, List.length_cons, drainLoop]
    simp only [if_neg hzero, (split_spec (b :: bs)).1, mapErr_ok, ok_bind]
    have hrest : (b :: bs).drop (completePrefix (b :: bs)) = remainder (b :: bs) := rfl
    rw [hrest]
    congr 1
    funext p
    rw [drainLoop_of_zero _ _ _ (completePrefix_remainder _)]
    simp

@[simp] theorem handleAll_nil (s : σ) : handleAll handle s [] = .ok ([], s) := rfl

theorem handleAll_cons (s : σ) (m : Message) (ms : List Message) :
    handleAll handle s (m :: ms) = (handle s m >>= fun p =>
      handleAll handle p.2 ms >>= fun q => .ok (p.1 ++ q.1, q.2)) := rfl

theorem handleAll_singleton (s : σ) (m : Message) : handleAll handle s [m] = handle s m := by
  rw [handleAll_cons]
  cases handle s m with
  | error e => rfl
  | ok p => simp

/-- The invariant rule: what every message keeps, with the log of messages handled so far, a
whole buffer keeps. -/
theorem handleAll_induct {P : List Message → σ → Prop}
    (hstep : ∀ log s m reply s', P log s → handle s m = .ok (reply, s') → P (log ++ [m]) s') :
    ∀ {ms log : List Message} {s s' : σ} {reply : Bytes}, P log s →
      handleAll handle s ms = .ok (reply, s') → P (log ++ ms) s' := by
  intro ms
  induction ms with
  | nil =>
      intro log s s' reply hP h
      obtain ⟨-, rfl⟩ : [] = reply ∧ s = s' := by simpa using h
      simpa using hP
  | cons m ms ih =>
      intro log s s' reply hP h
      rw [handleAll_cons, bind_eq_ok] at h
      obtain ⟨⟨reply₁, s₁⟩, hhandle, h⟩ := h
      rw [bind_eq_ok] at h
      obtain ⟨⟨reply₂, s₂⟩, hrest, heq⟩ := h
      obtain ⟨-, rfl⟩ : reply₁ ++ reply₂ = reply ∧ s₂ = s' := by simpa using heq
      have := ih (hstep _ _ _ _ _ hP hhandle) hrest
      simpa using this

end Drain

end RustyTls
