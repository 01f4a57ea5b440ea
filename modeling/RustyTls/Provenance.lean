import RustyTls.Endpoint
import RustyTls.Schedule

/-!
# RustyTls.Provenance

Where the bytes of a handshake message came from.

The reassembly buffer outlives a change of keys, so the state in which a message is processed
does not say under which keys its bytes arrived. Here every byte of the buffer carries an
`Origin`, set when the record it came in was read, and the history of a run lists each message
handed to the handler with the state it met and the origins of its bytes.

`KeyPolicy.Sound` says what one step of an endpoint may do to its keys. `history_guarded`
concludes, for every run in which nothing stands behind a message that changes the keys, that
each message processed under a key came out of records that opened under it.
-/

namespace RustyTls

open Core

/-- What a byte came out of: a record in the clear, or one that opened under these keys. -/
inductive Origin
  | clear
  | opened (alg : Aead) (keys : TrafficKeys)
  deriving Repr, DecidableEq

/-- A message handed to the handler, the state it met, and the origins of its bytes. -/
structure Visit (σ : Type) where
  state : σ
  message : Message
  origins : List Origin

/-- The keys of an endpoint's states. -/
structure KeyPolicy (σ : Type) where
  /-- What the bytes of a record read in a state come out of. -/
  origin : σ → Origin
  /-- What the messages processed in a state must have come out of, if the state has keys. -/
  guard : σ → Option Origin
  /-- A message that is answered by putting handshake keys in place. -/
  opens : Message → Bool
  /-- The handshake is over. -/
  isDone : σ → Bool

namespace Endpoint

variable {ε σ : Type} (endpoint : Endpoint ε σ) (policy : KeyPolicy σ)

/-! ### Histories -/

/-- The messages handed to a handler, through the first that it refuses. -/
def visits (handle : σ → Message → Except ε (Bytes × σ)) :
    σ → List Message → List Origin → List (Visit σ)
  | _, [], _ => []
  | s, m :: ms, origins =>
      ⟨s, m, origins.take m.encoded.length⟩ ::
        match handle s m with
        | .ok (_, next) => visits handle next ms (origins.drop m.encoded.length)
        | .error _ => []

/-- What one record hands to the handler, and the origins of the bytes it leaves in the
buffer. -/
def trace [DecidableEq σ] (entropy : Entropy) (handshake : Reassembling σ)
    (origins : List Origin) (record : Bytes) : List (Visit σ) × List Origin :=
  if handshake.state = endpoint.failed ∨ record.length < headerLen ∨
      record.headD 0 = changeCipherSpec then
    ([], origins)
  else
    match endpoint.unframe handshake.state record with
    | .error _ => ([], origins)
    | .ok (fragment, state) =>
        let buffer := handshake.buffer ++ fragment
        let origins := origins ++ List.replicate fragment.length (policy.origin handshake.state)
        (visits (endpoint.handle entropy) state (wholeMessages buffer) origins,
          origins.drop (completePrefix buffer))

/-- Every message handed to the handler in a run. -/
def history [DecidableEq σ] :
    Reassembling σ → List Origin → List (Entropy × Bytes) → List (Visit σ)
  | _, _, [] => []
  | handshake, origins, (entropy, record) :: rest =>
      (endpoint.trace policy entropy handshake origins record).1 ++
        history (endpoint.readRecord entropy handshake record).2
          (endpoint.trace policy entropy handshake origins record).2 rest

/-! ### Records that end where the keys change -/

/-- Nothing stands behind a message of this kind: neither a message nor the beginning of one. -/
def endsWith (changes : Message → Bool) (buffer : Bytes) : Bool :=
  (wholeMessages buffer).dropLast.all (!changes ·) &&
    ((wholeMessages buffer).getLast?.all fun m => !changes m || (remainder buffer).isEmpty)

/-- Nothing unfinished stands behind a Finished. -/
def endsWithFinished (buffer : Bytes) : Bool :=
  (wholeMessages buffer).getLast?.all fun m => m.typ ≠ .finished || (remainder buffer).isEmpty

/-- A record that leaves nothing in the buffer at a change of keys. -/
def aligned (handshake : Reassembling σ) (record : Bytes) : Bool :=
  match endpoint.unframe handshake.state record with
  | .error _ => true
  | .ok (fragment, _) =>
      if (policy.guard handshake.state).isNone then
        endsWith policy.opens (handshake.buffer ++ fragment)
      else
        endsWithFinished (handshake.buffer ++ fragment)

/-- A run of such records. -/
def alignedRun [DecidableEq σ] : Reassembling σ → List (Entropy × Bytes) → Bool
  | _, [] => true
  | handshake, (entropy, record) :: rest =>
      endpoint.aligned policy handshake record &&
        alignedRun (endpoint.readRecord entropy handshake record).2 rest

/-- Keys change only between records: what a state with keys processed came out of records that
opened under them, and a finished handshake has nothing left in its buffer. -/
structure KeyBoundary [DecidableEq σ] (handshake : Reassembling σ) (inputs : List (Entropy × Bytes)) :
    Prop where
  opened : ∀ visit ∈ endpoint.history policy handshake [] inputs, ∀ origin,
    policy.guard visit.state = some origin →
      visit.origins = List.replicate visit.message.encoded.length origin
  empty : policy.isDone (endpoint.run handshake inputs).state = true →
    (endpoint.run handshake inputs).buffer = []

end Endpoint

/-! ### What a step does to the keys -/

/-- The four things that a message can do to the keys. -/
inductive KeyPolicy.Step {σ : Type} (policy : KeyPolicy σ) (s : σ) (m : Message) (s' : σ) : Prop
  | clear (before : policy.guard s = none) (after : policy.guard s' = none)
      (running : policy.isDone s' = false)
  | opens (before : policy.guard s = none) (opening : policy.opens m = true)
      (running : policy.isDone s' = false)
  | keeps (before : policy.guard s ≠ none) (after : policy.guard s' = policy.guard s)
      (running : policy.isDone s' = false)
  | closes (before : policy.guard s ≠ none) (closing : m.typ = .finished)
      (after : policy.guard s' = none) (isOver : policy.isDone s' = true)

/-- A policy that an endpoint keeps to, in the states that satisfy an invariant. -/
structure KeyPolicy.Sound {ε σ : Type} (policy : KeyPolicy σ) (endpoint : Endpoint ε σ)
    (Inv : σ → Prop) : Prop where
  failed : Inv endpoint.failed ∧ policy.guard endpoint.failed = none ∧
    policy.isDone endpoint.failed = false
  done : ∀ entropy s m p, policy.isDone s = true → endpoint.handle entropy s m ≠ .ok p
  unframe : ∀ s record fragment s', Inv s → endpoint.unframe s record = .ok (fragment, s') →
    Inv s' ∧ policy.guard s' = policy.guard s ∧ policy.isDone s' = false ∧
      ∀ origin, policy.guard s = some origin → policy.origin s = origin
  handle : ∀ entropy s m reply s', Inv s → endpoint.handle entropy s m = .ok (reply, s') →
    Inv s' ∧ policy.Step s m s'

namespace Endpoint

variable {ε σ : Type} {endpoint : Endpoint ε σ} {policy : KeyPolicy σ} {Inv : σ → Prop}

section Messages

variable {entropy : Entropy}

/-- Once the handshake is over, the first message is refused. -/
theorem visits_done (sound : policy.Sound endpoint Inv) {s : σ} (hdone : policy.isDone s = true)
    (ms : List Message) (origins : List Origin) :
    ∀ visit ∈ visits (endpoint.handle entropy) s ms origins, visit.state = s := by
  intro visit hvisit
  cases ms with
  | nil => simp [visits] at hvisit
  | cons m ms =>
      rw [visits, List.mem_cons] at hvisit
      rcases hvisit with rfl | hvisit
      · rfl
      · split at hvisit
        · next hhandle => exact absurd hhandle (sound.done _ _ _ _ hdone)
        · simp at hvisit

/-- Under a key, every message is processed under that key until the handshake is over. -/
theorem visits_keyed (sound : policy.Sound endpoint Inv) {origin : Origin} (extra : Nat) :
    ∀ {ms : List Message} {s : σ}, Inv s → policy.guard s = some origin →
      ∀ visit ∈ visits (endpoint.handle entropy) s ms
        (List.replicate ((octets ms).length + extra) origin), ∀ origin',
      policy.guard visit.state = some origin' →
        visit.origins = List.replicate visit.message.encoded.length origin' := by
  intro ms
  induction ms with
  | nil =>
      intro s _ _ visit hvisit
      simp [visits] at hvisit
  | cons m ms ih =>
      intro s hinv hguard visit hvisit origin' hvisitGuard
      rw [visits, List.mem_cons] at hvisit
      rcases hvisit with rfl | hvisit
      · obtain rfl : origin = origin' := Option.some.inj (hguard.symm.trans hvisitGuard)
        simp only [octets_cons, List.length_append, List.take_replicate]
        congr 1
        omega
      · split at hvisit
        · next reply next hhandle =>
            have hdrop : (List.replicate ((octets (m :: ms)).length + extra) origin).drop
                m.encoded.length = List.replicate ((octets ms).length + extra) origin := by
              simp only [octets_cons, List.length_append, List.drop_replicate]
              congr 1
              omega
            rw [hdrop] at hvisit
            obtain ⟨hinv', hstep⟩ := sound.handle _ _ _ _ _ hinv hhandle
            cases hstep with
            | clear before _ _ => simp [hguard] at before
            | opens before _ _ => simp [hguard] at before
            | keeps _ after _ =>
                exact ih hinv' (after.trans hguard) visit hvisit origin' hvisitGuard
            | closes _ _ after isOver =>
                rw [visits_done sound isOver ms _ visit hvisit, after] at hvisitGuard
                simp at hvisitGuard
        · simp at hvisit

/-- Before there are keys, no message is processed under any, as long as the one that brings
them comes last. -/
theorem visits_clear (sound : policy.Sound endpoint Inv) :
    ∀ {ms : List Message} {s : σ} {origins : List Origin}, Inv s → policy.guard s = none →
      (∀ m ∈ ms.dropLast, policy.opens m = false) →
      ∀ visit ∈ visits (endpoint.handle entropy) s ms origins, policy.guard visit.state = none := by
  intro ms
  induction ms with
  | nil =>
      intro s origins _ _ _ visit hvisit
      simp [visits] at hvisit
  | cons m ms ih =>
      intro s origins hinv hguard hopens visit hvisit
      rw [visits, List.mem_cons] at hvisit
      rcases hvisit with rfl | hvisit
      · exact hguard
      · split at hvisit
        · next reply next hhandle =>
            cases ms with
            | nil => simp [visits] at hvisit
            | cons m' ms =>
                rw [List.dropLast_cons_cons] at hopens
                obtain ⟨hinv', hstep⟩ := sound.handle _ _ _ _ _ hinv hhandle
                cases hstep with
                | clear _ after _ =>
                    exact ih hinv' after (fun m'' hm => hopens m'' (List.mem_cons_of_mem _ hm)) visit
                      hvisit
                | opens _ opening _ => simp [hopens m (List.mem_cons_self ..)] at opening
                | keeps before _ _ => exact absurd hguard before
                | closes before _ _ _ => exact absurd hguard before
        · simp at hvisit

/-- What the messages of a record leave when they are read under a key. -/
theorem handleAll_keyed (sound : policy.Sound endpoint Inv) :
    ∀ {ms : List Message} {s s' : σ} {reply : Bytes}, Inv s → policy.guard s ≠ none →
      policy.isDone s = false →
      handleAll (endpoint.handle entropy) s ms = .ok (reply, s') →
      Inv s' ∧ ((policy.guard s' = policy.guard s ∧ policy.isDone s' = false) ∨
        (policy.guard s' = none ∧ ∃ m, ms.getLast? = some m ∧ m.typ = .finished)) := by
  intro ms
  induction ms with
  | nil =>
      intro s s' reply hinv _ hrunning h
      obtain ⟨-, rfl⟩ : [] = reply ∧ s = s' := by simpa using h
      exact ⟨hinv, .inl ⟨rfl, hrunning⟩⟩
  | cons m ms ih =>
      intro s s' reply hinv hguard _ h
      rw [handleAll_cons, bind_eq_ok] at h
      obtain ⟨⟨reply₁, s₁⟩, hhandle, h⟩ := h
      rw [bind_eq_ok] at h
      obtain ⟨⟨reply₂, s₂⟩, hrest, heq⟩ := h
      obtain ⟨-, rfl⟩ : reply₁ ++ reply₂ = reply ∧ s₂ = s' := by simpa using heq
      obtain ⟨hinv', hstep⟩ := sound.handle _ _ _ _ _ hinv hhandle
      cases hstep with
      | clear before _ _ => exact absurd before hguard
      | opens before _ _ => exact absurd before hguard
      | keeps _ after running =>
          obtain ⟨hinv'', hkept | ⟨hnone, last, hlast, htyp⟩⟩ :=
            ih hinv' (by rw [after]; exact hguard) running hrest
          · exact ⟨hinv'', .inl ⟨hkept.1.trans after, hkept.2⟩⟩
          · refine ⟨hinv'', .inr ⟨hnone, last, ?_, htyp⟩⟩
            rw [List.getLast?_cons, hlast]
            rfl
      | closes _ closing after isOver =>
          -- A second message would have met a handshake that is over.
          cases ms with
          | nil =>
              obtain ⟨-, rfl⟩ : [] = reply₂ ∧ s₁ = s₂ := by simpa using hrest
              exact ⟨hinv', .inr ⟨after, m, rfl, closing⟩⟩
          | cons m' ms =>
              rw [handleAll_cons, bind_eq_ok] at hrest
              obtain ⟨p, hhandle', -⟩ := hrest
              exact absurd hhandle' (sound.done _ _ _ _ isOver)

/-- What the messages of a record leave when they are read in the clear. -/
theorem handleAll_clear (sound : policy.Sound endpoint Inv) :
    ∀ {ms : List Message} {s s' : σ} {reply : Bytes}, Inv s → policy.guard s = none →
      policy.isDone s = false → (∀ m ∈ ms.dropLast, policy.opens m = false) →
      handleAll (endpoint.handle entropy) s ms = .ok (reply, s') →
      Inv s' ∧ policy.isDone s' = false ∧
        (policy.guard s' = none ∨ ∃ m, ms.getLast? = some m ∧ policy.opens m = true) := by
  intro ms
  induction ms with
  | nil =>
      intro s s' reply hinv hguard hrunning _ h
      obtain ⟨-, rfl⟩ : [] = reply ∧ s = s' := by simpa using h
      exact ⟨hinv, hrunning, .inl hguard⟩
  | cons m ms ih =>
      intro s s' reply hinv hguard _ hopens h
      rw [handleAll_cons, bind_eq_ok] at h
      obtain ⟨⟨reply₁, s₁⟩, hhandle, h⟩ := h
      rw [bind_eq_ok] at h
      obtain ⟨⟨reply₂, s₂⟩, hrest, heq⟩ := h
      obtain ⟨-, rfl⟩ : reply₁ ++ reply₂ = reply ∧ s₂ = s' := by simpa using heq
      obtain ⟨hinv', hstep⟩ := sound.handle _ _ _ _ _ hinv hhandle
      cases ms with
      | nil =>
          obtain ⟨-, rfl⟩ : [] = reply₂ ∧ s₁ = s₂ := by simpa using hrest
          cases hstep with
          | clear _ after running => exact ⟨hinv', running, .inl after⟩
          | opens _ opening running => exact ⟨hinv', running, .inr ⟨m, rfl, opening⟩⟩
          | keeps before _ _ => exact absurd hguard before
          | closes before _ _ _ => exact absurd hguard before
      | cons m' ms =>
          rw [List.dropLast_cons_cons] at hopens
          cases hstep with
          | clear _ after running =>
              obtain ⟨hinv'', hrunning, hnone | ⟨last, hlast, hopening⟩⟩ :=
                ih hinv' after running (fun m'' hm => hopens m'' (List.mem_cons_of_mem _ hm)) hrest
              · exact ⟨hinv'', hrunning, .inl hnone⟩
              · refine ⟨hinv'', hrunning, .inr ⟨last, ?_, hopening⟩⟩
                rw [List.getLast?_cons_cons]
                exact hlast
          | opens _ opening _ => simp [hopens m (List.mem_cons_self ..)] at opening
          | keeps before _ _ => exact absurd hguard before
          | closes before _ _ _ => exact absurd hguard before

end Messages

/-! ### Runs -/

theorem endsWith_iff {changes : Message → Bool} {buffer : Bytes} :
    endsWith changes buffer = true ↔ (∀ m ∈ (wholeMessages buffer).dropLast, changes m = false) ∧
      ∀ m, (wholeMessages buffer).getLast? = some m → changes m = true → remainder buffer = [] := by
  simp only [endsWith, Bool.and_eq_true, List.all_eq_true, Bool.not_eq_true', Option.all_eq_true,
    Bool.or_eq_true, List.isEmpty_iff]
  constructor
  · intro ⟨hbefore, hlast⟩
    refine ⟨hbefore, fun m hm hchanges => ?_⟩
    rcases hlast m hm with hnot | hempty
    · simp [hchanges] at hnot
    · exact hempty
  · intro ⟨hbefore, hlast⟩
    refine ⟨hbefore, fun m hm => ?_⟩
    cases hchanges : changes m with
    | false => exact .inl rfl
    | true => exact .inr (hlast m hm hchanges)

theorem endsWithFinished_iff {buffer : Bytes} :
    endsWithFinished buffer = true ↔
      ∀ m, (wholeMessages buffer).getLast? = some m → m.typ = .finished → remainder buffer = [] := by
  simp only [endsWithFinished, Option.all_eq_true, Bool.or_eq_true, decide_eq_true_eq,
    List.isEmpty_iff, ne_eq]
  constructor
  · intro h m hm htyp
    rcases h m hm with hnot | hempty
    · exact absurd htyp hnot
    · exact hempty
  · intro h m hm
    by_cases htyp : m.typ = .finished
    · exact .inr (h m hm htyp)
    · exact .inl htyp

/-- The origins of a buffer: one for each byte, and all of them the current key if there is
one. -/
structure Consistent (endpoint : Endpoint ε σ) (policy : KeyPolicy σ) (Inv : σ → Prop)
    (handshake : Reassembling σ) (origins : List Origin) : Prop where
  inv : Inv handshake.state
  length : handshake.state ≠ endpoint.failed → origins.length = handshake.buffer.length
  keyed : ∀ origin, policy.guard handshake.state = some origin →
    origins = List.replicate handshake.buffer.length origin
  isOver : policy.isDone handshake.state = true → handshake.buffer = []

theorem Consistent.ofFailed (sound : policy.Sound endpoint Inv) {next : Reassembling σ}
    (hfailed : next.state = endpoint.failed) (origins : List Origin) :
    Consistent endpoint policy Inv next origins := by
  obtain ⟨hinv, hguard, hdone⟩ := sound.failed
  refine ⟨hfailed ▸ hinv, fun hne => absurd hfailed hne, ?_, ?_⟩
  · intro origin h
    simp [hfailed, hguard] at h
  · intro h
    simp [hfailed, hdone] at h

variable [DecidableEq σ]

/-- What reading a record does to the state, the buffer and the origins of its bytes: nothing,
or nothing but a failure, or the messages of the record and what they leave. -/
theorem trace_inv (policy : KeyPolicy σ) {entropy : Entropy} {handshake next : Reassembling σ}
    (origins : List Origin) {record : Bytes}
    (hnext : (endpoint.readRecord entropy handshake record).2 = next) :
    (endpoint.trace policy entropy handshake origins record = ([], origins) ∧
        (next = handshake ∨ next.state = endpoint.failed)) ∨
      ∃ fragment state, handshake.state ≠ endpoint.failed ∧
        endpoint.unframe handshake.state record = .ok (fragment, state) ∧
        endpoint.trace policy entropy handshake origins record =
          (visits (endpoint.handle entropy) state (wholeMessages (handshake.buffer ++ fragment))
              (origins ++ List.replicate fragment.length (policy.origin handshake.state)),
            (origins ++ List.replicate fragment.length (policy.origin handshake.state)).drop
              (completePrefix (handshake.buffer ++ fragment))) ∧
        (next.state = endpoint.failed ∨ ∃ reply,
          handleAll (endpoint.handle entropy) state (wholeMessages (handshake.buffer ++ fragment))
            = .ok (reply, next.state) ∧
          next.buffer = remainder (handshake.buffer ++ fragment)) := by
  by_cases hfailed : handshake.state = endpoint.failed
  · left
    rw [trace, if_pos (.inl hfailed), ← hnext, readRecord, if_pos hfailed]
    exact ⟨rfl, .inl rfl⟩
  by_cases hlen : record.length < headerLen
  · left
    rw [trace, if_pos (.inr (.inl hlen)), ← hnext, readRecord, if_neg hfailed, readRecordInner,
      if_pos hlen]
    exact ⟨rfl, .inr rfl⟩
  by_cases hccs : record.headD 0 = changeCipherSpec
  · left
    rw [trace, if_pos (.inr (.inr hccs)), ← hnext, readRecord, if_neg hfailed, readRecordInner,
      if_neg hlen, if_pos hccs]
    exact ⟨rfl, .inl rfl⟩
  rw [trace, if_neg (not_or.mpr ⟨hfailed, not_or.mpr ⟨hlen, hccs⟩⟩)]
  rw [readRecord, if_neg hfailed, readRecordInner, if_neg hlen, if_neg hccs] at hnext
  cases hunframe : endpoint.unframe handshake.state record with
  | error err =>
      rw [hunframe] at hnext
      exact .inl ⟨rfl, .inr (by rw [← hnext]; rfl)⟩
  | ok p =>
      obtain ⟨fragment, state⟩ := p
      refine .inr ⟨fragment, state, hfailed, rfl, rfl, ?_⟩
      simp only [hunframe, ok_bind, drain_eq] at hnext
      cases hall : handleAll (endpoint.handle entropy) state
          (wholeMessages (handshake.buffer ++ fragment)) with
      | error err =>
          rw [hall] at hnext
          exact .inl (by rw [← hnext]; rfl)
      | ok q =>
          rw [hall] at hnext
          refine .inr ⟨q.1, ?_, ?_⟩
          · rw [← hnext]
            rfl
          · rw [← hnext]
            rfl

/-- The step lemma: a record that ends where the keys change keeps the origins in step with the
keys, and what it hands to the handler came out of the right records. -/
theorem consistent_step (sound : policy.Sound endpoint Inv) (entropy : Entropy)
    {handshake : Reassembling σ} {origins : List Origin} {record : Bytes}
    (h : Consistent endpoint policy Inv handshake origins)
    (haligned : endpoint.aligned policy handshake record = true) :
    (∀ visit ∈ (endpoint.trace policy entropy handshake origins record).1, ∀ origin,
      policy.guard visit.state = some origin →
        visit.origins = List.replicate visit.message.encoded.length origin) ∧
    Consistent endpoint policy Inv (endpoint.readRecord entropy handshake record).2
      (endpoint.trace policy entropy handshake origins record).2 := by
  rcases trace_inv policy origins (rfl : (endpoint.readRecord entropy handshake record).2 = _) with
    ⟨htrace, hsame | hfailed⟩ | ⟨fragment, state, hrunning, hunframe, htrace, hnext⟩
  · rw [htrace, hsame]
    exact ⟨by simp, h⟩
  · rw [htrace]
    exact ⟨by simp, .ofFailed sound hfailed origins⟩
  rw [htrace]
  obtain ⟨hinv, hguard, hgoing, horigin⟩ := sound.unframe _ _ _ _ h.inv hunframe
  obtain ⟨-, -, -, hsplit⟩ := split_spec (handshake.buffer ++ fragment)
  have hleft : ((origins ++ List.replicate fragment.length (policy.origin handshake.state)).drop
      (completePrefix (handshake.buffer ++ fragment))).length
        = (remainder (handshake.buffer ++ fragment)).length := by
    simp [remainder, h.length hrunning]
  rw [aligned, hunframe] at haligned
  simp only at haligned
  cases hkey : policy.guard handshake.state with
  | none =>
      rw [hkey, Option.isNone_none, if_pos rfl, endsWith_iff] at haligned
      obtain ⟨hbefore, hlast⟩ := haligned
      rw [hkey] at hguard
      refine ⟨?_, ?_⟩
      · intro visit hvisit origin hvisitGuard
        rw [visits_clear sound hinv hguard hbefore visit hvisit] at hvisitGuard
        simp at hvisitGuard
      · rcases hnext with hfailed | ⟨reply, hall, hbuffer⟩
        · exact .ofFailed sound hfailed _
        obtain ⟨hinv', hdone, hcase⟩ := handleAll_clear sound hinv hguard hgoing hbefore hall
        refine ⟨hinv', fun _ => by rw [hbuffer]; exact hleft, ?_, fun hover => by simp [hdone] at hover⟩
        intro origin hkeyed
        rcases hcase with hnone | ⟨m, hm, hopens⟩
        · simp [hnone] at hkeyed
        · have hempty := hlast m hm hopens
          rw [hempty] at hleft
          rw [hbuffer, hempty]
          exact List.length_eq_zero_iff.mp hleft
  | some origin =>
      rw [hkey, Option.isNone_some, if_neg (by simp), endsWithFinished_iff] at haligned
      rw [hkey] at hguard
      have horigins : origins ++ List.replicate fragment.length (policy.origin handshake.state)
          = List.replicate ((octets (wholeMessages (handshake.buffer ++ fragment))).length
              + (remainder (handshake.buffer ++ fragment)).length) origin := by
        have hlen := congrArg List.length hsplit
        rw [h.keyed origin hkey, horigin origin hkey, List.replicate_append_replicate]
        simp only [List.length_append] at hlen
        rw [hlen, octets]
      refine ⟨?_, ?_⟩
      · rw [horigins]
        exact visits_keyed sound _ hinv hguard
      · rcases hnext with hfailed | ⟨reply, hall, hbuffer⟩
        · exact .ofFailed sound hfailed _
        obtain ⟨hinv', hcase⟩ := handleAll_keyed sound hinv (by simp [hguard]) hgoing hall
        refine ⟨hinv', fun _ => by rw [hbuffer]; exact hleft, ?_, ?_⟩
        · intro origin' hkeyed
          rcases hcase with ⟨hsame, -⟩ | ⟨hnone, -⟩
          · obtain rfl : origin = origin' := by
              rw [hsame, hguard] at hkeyed
              exact Option.some.inj hkeyed
            rw [hbuffer, ← hleft, horigins, List.drop_replicate, List.length_replicate]
          · simp [hnone] at hkeyed
        · intro hover
          rcases hcase with ⟨-, hdone⟩ | ⟨-, m, hm, htyp⟩
          · simp [hdone] at hover
          · rw [hbuffer]
            exact haligned m hm htyp

/-- The run lemma. -/
theorem history_guarded (sound : policy.Sound endpoint Inv) :
    ∀ (inputs : List (Entropy × Bytes)) {handshake : Reassembling σ} {origins : List Origin},
      Consistent endpoint policy Inv handshake origins →
      endpoint.alignedRun policy handshake inputs = true →
      (∀ visit ∈ endpoint.history policy handshake origins inputs, ∀ origin,
        policy.guard visit.state = some origin →
          visit.origins = List.replicate visit.message.encoded.length origin) ∧
      (policy.isDone (endpoint.run handshake inputs).state = true →
        (endpoint.run handshake inputs).buffer = []) := by
  intro inputs
  induction inputs with
  | nil =>
      intro handshake origins h _
      refine ⟨?_, h.isOver⟩
      intro visit hvisit
      simp [history] at hvisit
  | cons input rest ih =>
      intro handshake origins h haligned
      obtain ⟨entropy, record⟩ := input
      rw [alignedRun, Bool.and_eq_true] at haligned
      obtain ⟨hvisits, hnext⟩ := consistent_step sound entropy h haligned.1
      obtain ⟨hrest, hempty⟩ := ih hnext haligned.2
      refine ⟨?_, hempty⟩
      intro visit hvisit
      rw [history, List.mem_append] at hvisit
      rcases hvisit with hvisit | hvisit
      · exact hvisits visit hvisit
      · exact hrest visit hvisit

/-- A handshake that starts with an empty buffer keeps its keys apart in every run of records
that end where the keys change. -/
theorem keyBoundary (sound : policy.Sound endpoint Inv) {s : σ} (hinv : Inv s)
    (hdone : policy.isDone s = false) {inputs : List (Entropy × Bytes)}
    (haligned : endpoint.alignedRun policy ⟨s, []⟩ inputs = true) :
    endpoint.KeyBoundary policy ⟨s, []⟩ inputs := by
  have hstart : Consistent endpoint policy Inv ⟨s, []⟩ [] :=
    ⟨hinv, fun _ => rfl, fun _ _ => rfl, fun hover => by simp [hdone] at hover⟩
  obtain ⟨hopened, hempty⟩ := history_guarded sound inputs hstart haligned
  exact ⟨hopened, hempty⟩

end Endpoint

end RustyTls
