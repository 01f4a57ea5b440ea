import RustyTls.Framing
import RustyTls.Connection

/-!
# RustyTls.Endpoint

What `ClientHandshake` and `ServerHandshake` have in common: a state, a reassembly buffer, and
`read_record`, which takes a record apart, hands its whole messages to a handler one after the
other, and puts the failed state in place as soon as anything is refused.

An `Endpoint` holds the parts in which the two differ. A run is any list of records, each with
the randomness its call draws. `run_induct` is the invariant rule over runs, for a property of
the state together with the log of the messages accepted so far; both handshakes' results are
proved with it. Where a result relates what was answered at one message to what was answered at
another, the log is one of steps, `taken`, and the rule is `taken_induct`.
-/

namespace RustyTls

open Core

/-- The parts of `read_record` in which the two handshakes differ. -/
structure Endpoint (ε σ : Type) where
  /-- The state every error leaves behind. -/
  failed : σ
  /-- The error of a read in that state. -/
  alreadyFailed : ε
  ofRecord : RecordError → ε
  ofHandshake : HandshakeError → ε
  /-- The handshake bytes of a record, and the state with its opener moved on. -/
  unframe : σ → Bytes → Except ε (Bytes × σ)
  /-- One message in one state. -/
  handle : Entropy → σ → Message → Except ε (Bytes × σ)

/-- A handshake: its state, and the bytes of a message not yet complete. -/
structure Reassembling (σ : Type) where
  state : σ
  buffer : Bytes
  deriving Repr, DecidableEq

namespace Endpoint

variable {ε σ : Type} (endpoint : Endpoint ε σ)

def readRecordInner (entropy : Entropy) (handshake : Reassembling σ) (record : Bytes) :
    Except ε (Bytes × Reassembling σ) :=
  if record.length < headerLen then
    .error (endpoint.ofRecord (.truncated record.length headerLen))
  else if record.headD 0 = changeCipherSpec then
    -- Dropped without comment, in every state.
    .ok ([], handshake)
  else do
    let (fragment, state) ← endpoint.unframe handshake.state record
    let (reply, state, buffer) ← drain endpoint.ofHandshake (endpoint.handle entropy) state
      (handshake.buffer ++ fragment)
    .ok (reply, ⟨state, buffer⟩)

/-- Read one record: the reply to send, and the handshake left behind. Nothing reads the buffer
of a failed handshake. -/
def readRecord [DecidableEq σ] (entropy : Entropy) (handshake : Reassembling σ) (record : Bytes) :
    Except ε Bytes × Reassembling σ :=
  if handshake.state = endpoint.failed then
    (.error endpoint.alreadyFailed, handshake)
  else
    match endpoint.readRecordInner entropy handshake record with
    | .ok (reply, handshake) => (.ok reply, handshake)
    | .error err => (.error err, { handshake with state := endpoint.failed })

/-! ### Runs -/

/-- The handshake after a list of records, each with the randomness its call draws. -/
def run [DecidableEq σ] (handshake : Reassembling σ) (inputs : List (Entropy × Bytes)) :
    Reassembling σ :=
  inputs.foldl (fun handshake input => (endpoint.readRecord input.1 handshake input.2).2) handshake

/-- What a list of records is answered with, one reply after the other. -/
def replies [DecidableEq σ] : Reassembling σ → List (Entropy × Bytes) → Bytes
  | _, [] => []
  | handshake, (entropy, record) :: rest =>
      match endpoint.readRecord entropy handshake record with
      | (.ok reply, next) => reply ++ replies next rest
      | (.error _, next) => replies next rest

/-- The whole messages that a record completes. -/
def received (handshake : Reassembling σ) (record : Bytes) : List Message :=
  if record.length < headerLen ∨ record.headD 0 = changeCipherSpec then
    []
  else
    match endpoint.unframe handshake.state record with
    | .ok (fragment, _) => wholeMessages (handshake.buffer ++ fragment)
    | .error _ => []

/-- The messages that a list of records had accepted: those of every read that succeeded. -/
def accepted [DecidableEq σ] :
    Reassembling σ → List (Entropy × Bytes) → List Message
  | _, [] => []
  | handshake, (entropy, record) :: rest =>
      match endpoint.readRecord entropy handshake record with
      | (.ok _, next) => endpoint.received handshake record ++ accepted next rest
      | (.error _, next) => accepted next rest

variable {endpoint}

/-- Invert a successful read: a dropped change_cipher_spec, or a record whose messages were all
accepted. -/
theorem readRecordInner_inv {entropy : Entropy} {handshake next : Reassembling σ}
    {record reply : Bytes}
    (h : endpoint.readRecordInner entropy handshake record = .ok (reply, next)) :
    (endpoint.received handshake record = [] ∧ next = handshake ∧ reply = []) ∨
      ∃ fragment state, endpoint.unframe handshake.state record = .ok (fragment, state) ∧
        endpoint.received handshake record = wholeMessages (handshake.buffer ++ fragment) ∧
        handleAll (endpoint.handle entropy) state (wholeMessages (handshake.buffer ++ fragment))
          = .ok (reply, next.state) ∧
        next.buffer = remainder (handshake.buffer ++ fragment) := by
  simp only [readRecordInner] at h
  split at h
  · simp at h
  next hlen =>
  split at h
  · next hccs =>
      obtain ⟨rfl, rfl⟩ : [] = reply ∧ handshake = next := by simpa using h
      exact .inl ⟨by simp only [received, hccs]; simp, rfl, rfl⟩
  next hccs =>
  rw [bind_eq_ok] at h
  obtain ⟨⟨fragment, state⟩, hunframe, h⟩ := h
  simp only [drain_eq, bind_eq_ok] at h
  obtain ⟨p, ⟨q, hall, hp⟩, h⟩ := h
  obtain rfl := Except.ok.inj hp
  obtain ⟨rfl, rfl⟩ : q.1 = reply ∧ ⟨q.2, remainder (handshake.buffer ++ fragment)⟩ = next := by
    simpa using h
  have hreceived : endpoint.received handshake record
      = wholeMessages (handshake.buffer ++ fragment) := by
    rw [received, if_neg (not_or.mpr ⟨hlen, hccs⟩), hunframe]
  exact .inr ⟨fragment, state, hunframe, hreceived, hall, rfl⟩

/-! ### The steps of a record -/

/-- One message handled: the states around it, and what it was answered with. -/
structure Taken (σ : Type) where
  entropy : Entropy
  before : σ
  message : Message
  reply : Bytes
  after : σ

/-- The steps that a list of messages takes, up to the first that is refused. -/
def stepsOf (entropy : Entropy) (handle : σ → Message → Except ε (Bytes × σ)) :
    σ → List Message → List (Taken σ)
  | _, [] => []
  | s, m :: ms =>
      match handle s m with
      | .ok (reply, s') => ⟨entropy, s, m, reply, s'⟩ :: stepsOf entropy handle s' ms
      | .error _ => []

/-- The steps that the messages of a record take. -/
def recordSteps (endpoint : Endpoint ε σ) (entropy : Entropy) (handshake : Reassembling σ)
    (record : Bytes) : List (Taken σ) :=
  if record.length < headerLen ∨ record.headD 0 = changeCipherSpec then
    []
  else
    match endpoint.unframe handshake.state record with
    | .ok (fragment, state) =>
        stepsOf entropy (endpoint.handle entropy) state (wholeMessages (handshake.buffer ++ fragment))
    | .error _ => []

/-- Messages that are all accepted all take a step, and their replies are the steps'. -/
theorem stepsOf_of_handleAll {entropy : Entropy} {handle : σ → Message → Except ε (Bytes × σ)}
    {ms : List Message} : ∀ {s s' : σ} {reply : Bytes},
      handleAll handle s ms = .ok (reply, s') →
      (stepsOf entropy handle s ms).map (·.message) = ms ∧
      (stepsOf entropy handle s ms).flatMap (·.reply) = reply := by
  induction ms with
  | nil =>
      intro s s' reply h
      obtain ⟨rfl, rfl⟩ : [] = reply ∧ s = s' := by simpa using h
      exact ⟨rfl, rfl⟩
  | cons m ms ih =>
      intro s s' reply h
      rw [handleAll_cons, bind_eq_ok] at h
      obtain ⟨⟨reply₁, s₁⟩, hhandle, h⟩ := h
      rw [bind_eq_ok] at h
      obtain ⟨⟨reply₂, s₂⟩, hrest, heq⟩ := h
      obtain ⟨rfl, rfl⟩ : reply₁ ++ reply₂ = reply ∧ s₂ = s' := by simpa using heq
      obtain ⟨hmessages, hreplies⟩ := ih hrest
      simp [stepsOf, hhandle, hmessages, hreplies]

/-- The invariant rule for the steps of one record's messages. -/
theorem stepsOf_induct {entropy : Entropy} {handle : σ → Message → Except ε (Bytes × σ)}
    {P : List (Taken σ) → σ → Prop}
    (hstep : ∀ log s m reply s', P log s → handle s m = .ok (reply, s') →
      P (log ++ [⟨entropy, s, m, reply, s'⟩]) s') :
    ∀ {ms : List Message} {log : List (Taken σ)} {s s' : σ} {reply : Bytes}, P log s →
      handleAll handle s ms = .ok (reply, s') → P (log ++ stepsOf entropy handle s ms) s' := by
  intro ms
  induction ms with
  | nil =>
      intro log s s' reply hP h
      obtain ⟨-, rfl⟩ : [] = reply ∧ s = s' := by simpa using h
      simpa [stepsOf] using hP
  | cons m ms ih =>
      intro log s s' reply hP h
      rw [handleAll_cons, bind_eq_ok] at h
      obtain ⟨⟨reply₁, s₁⟩, hhandle, h⟩ := h
      rw [bind_eq_ok] at h
      obtain ⟨⟨reply₂, s₂⟩, hrest, heq⟩ := h
      obtain ⟨-, rfl⟩ : reply₁ ++ reply₂ = reply ∧ s₂ = s' := by simpa using heq
      have := ih (hstep _ _ _ _ _ hP hhandle) hrest
      simpa [stepsOf, hhandle] using this

/-- The invariant rule for the steps of messages some of which may be refused. -/
theorem stepsOf_reaches {entropy : Entropy} {handle : σ → Message → Except ε (Bytes × σ)}
    {P : List (Taken σ) → σ → Prop}
    (hstep : ∀ log s m reply s', P log s → handle s m = .ok (reply, s') →
      P (log ++ [⟨entropy, s, m, reply, s'⟩]) s') :
    ∀ {ms : List Message} {log : List (Taken σ)} {s : σ}, P log s →
      ∃ s', P (log ++ stepsOf entropy handle s ms) s' := by
  intro ms
  induction ms with
  | nil =>
      intro log s hP
      exact ⟨s, by simpa [stepsOf] using hP⟩
  | cons m ms ih =>
      intro log s hP
      cases hhandle : handle s m with
      | error err => exact ⟨s, by simpa [stepsOf, hhandle] using hP⟩
      | ok result =>
          obtain ⟨reply, s₁⟩ := result
          obtain ⟨s', hP'⟩ := ih (hstep _ _ _ _ _ hP hhandle)
          exact ⟨s', by simpa [stepsOf, hhandle] using hP'⟩

theorem recordSteps_inv {entropy : Entropy} {handshake next : Reassembling σ}
    {record reply : Bytes}
    (h : endpoint.readRecordInner entropy handshake record = .ok (reply, next)) :
    (endpoint.recordSteps entropy handshake record = [] ∧ next = handshake ∧ reply = []) ∨
      ∃ fragment state, endpoint.unframe handshake.state record = .ok (fragment, state) ∧
        endpoint.recordSteps entropy handshake record
          = stepsOf entropy (endpoint.handle entropy) state
              (wholeMessages (handshake.buffer ++ fragment)) ∧
        handleAll (endpoint.handle entropy) state (wholeMessages (handshake.buffer ++ fragment))
          = .ok (reply, next.state) := by
  by_cases hskip : record.length < headerLen ∨ record.headD 0 = changeCipherSpec
  · have hnone : endpoint.recordSteps entropy handshake record = [] := by
      rw [recordSteps, if_pos hskip]
    simp only [readRecordInner] at h
    rcases hskip with hlen | hccs
    · simp [hlen] at h
    · split at h
      · simp at h
      · obtain ⟨rfl, rfl⟩ : [] = reply ∧ handshake = next := by simpa [hccs] using h
        exact .inl ⟨hnone, rfl, rfl⟩
  · obtain ⟨hlen, hccs⟩ := not_or.mp hskip
    simp only [readRecordInner, if_neg hlen, if_neg hccs, bind_eq_ok, drain_eq] at h
    obtain ⟨⟨fragment, state⟩, hunframe, p, ⟨q, hall, hp⟩, h⟩ := h
    obtain rfl := Except.ok.inj hp
    obtain ⟨rfl, rfl⟩ : q.1 = reply ∧ ⟨q.2, remainder (handshake.buffer ++ fragment)⟩ = next := by
      simpa using h
    refine .inr ⟨fragment, state, hunframe, ?_, hall⟩
    rw [recordSteps, if_neg hskip, hunframe]

/-- A read that succeeds takes a step with every message that the record completes. -/
theorem received_eq_recordSteps {entropy : Entropy} {handshake next : Reassembling σ}
    {record reply : Bytes}
    (h : endpoint.readRecordInner entropy handshake record = .ok (reply, next)) :
    endpoint.received handshake record
      = (endpoint.recordSteps entropy handshake record).map (·.message) := by
  by_cases hskip : record.length < headerLen ∨ record.headD 0 = changeCipherSpec
  · rw [received, recordSteps, if_pos hskip, if_pos hskip]
    rfl
  · obtain ⟨hlen, hccs⟩ := not_or.mp hskip
    simp only [readRecordInner, if_neg hlen, if_neg hccs, bind_eq_ok, drain_eq] at h
    obtain ⟨⟨fragment, state⟩, hunframe, _, ⟨_, hall, -⟩, -⟩ := h
    rw [received, recordSteps, if_neg hskip, if_neg hskip, hunframe]
    exact (stepsOf_of_handleAll hall).1.symm

variable [DecidableEq σ]

/-- Invert a read: it failed, or it succeeded as `readRecordInner` did. -/
theorem readRecord_inv {entropy : Entropy} {handshake next : Reassembling σ} {record : Bytes}
    {result : Except ε Bytes} (h : endpoint.readRecord entropy handshake record = (result, next)) :
    ((∃ err, result = .error err) ∧ next.state = endpoint.failed) ∨
      ∃ reply, result = .ok reply ∧
        endpoint.readRecordInner entropy handshake record = .ok (reply, next) := by
  simp only [readRecord] at h
  split at h
  · next hfailed =>
      obtain ⟨rfl, rfl⟩ := Prod.mk.inj h
      exact .inl ⟨⟨_, rfl⟩, hfailed⟩
  · split at h
    · next reply handshake' hinner =>
        obtain ⟨rfl, rfl⟩ := Prod.mk.inj h
        exact .inr ⟨reply, rfl, hinner⟩
    · obtain ⟨rfl, rfl⟩ := Prod.mk.inj h
      exact .inl ⟨⟨_, rfl⟩, rfl⟩

/-- The invariant rule for one read, whether it succeeds or not: what survives a failure and the
opener's moves and is kept by every step, holds after it. -/
theorem readRecord_induct (endpoint : Endpoint ε σ) {P : List (Taken σ) → σ → Prop}
    (hfailed : ∀ log s, P log s → P log endpoint.failed)
    (hunframe : ∀ log s record fragment s', P log s →
      endpoint.unframe s record = .ok (fragment, s') → P log s')
    (hhandle : ∀ entropy log s m reply s', P log s →
      endpoint.handle entropy s m = .ok (reply, s') →
      P (log ++ [⟨entropy, s, m, reply, s'⟩]) s')
    {entropy : Entropy} {handshake next : Reassembling σ} {record : Bytes} {result : Except ε Bytes}
    (log : List (Taken σ)) (hP : P log handshake.state)
    (h : endpoint.readRecord entropy handshake record = (result, next)) :
    P (log ++ endpoint.recordSteps entropy handshake record) next.state := by
  rcases readRecord_inv h with ⟨-, hnext⟩ | ⟨reply, -, hinner⟩
  · rw [hnext, recordSteps]
    split
    · rw [List.append_nil]
      exact hfailed _ _ hP
    · split
      · next fragment state hopen =>
          obtain ⟨s', hP'⟩ := stepsOf_reaches (hhandle entropy) (hunframe _ _ _ _ _ hP hopen)
          exact hfailed _ _ hP'
      · rw [List.append_nil]
        exact hfailed _ _ hP
  · rcases recordSteps_inv hinner with ⟨hsteps, hnext, -⟩ | ⟨fragment, state, hopen, hsteps, hall⟩
    · rw [hsteps, hnext, List.append_nil]
      exact hP
    · rw [hsteps]
      exact stepsOf_induct (hhandle entropy) (hunframe _ _ _ _ _ hP hopen) hall

/-- The invariant rule for runs: what holds in the failed state, survives the opener's moves
and is kept by every message, holds after every run. -/
theorem run_induct (endpoint : Endpoint ε σ) {P : List Message → σ → Prop}
    (hfailed : ∀ log, P log endpoint.failed)
    (hunframe : ∀ log s record fragment s', P log s →
      endpoint.unframe s record = .ok (fragment, s') → P log s')
    (hhandle : ∀ entropy log s m reply s', P log s →
      endpoint.handle entropy s m = .ok (reply, s') → P (log ++ [m]) s') :
    ∀ (inputs : List (Entropy × Bytes)) (handshake : Reassembling σ) (log : List Message),
      P log handshake.state →
      P (log ++ endpoint.accepted handshake inputs) (endpoint.run handshake inputs).state := by
  intro inputs
  induction inputs with
  | nil =>
      intro handshake log hP
      simpa [accepted, run] using hP
  | cons input rest ih =>
      intro handshake log hP
      obtain ⟨entropy, record⟩ := input
      cases hread : endpoint.readRecord entropy handshake record with
      | mk result next =>
          have hrun : endpoint.run handshake ((entropy, record) :: rest) = endpoint.run next rest := by
            simp [run, hread]
          rw [accepted, hread, hrun]
          rcases readRecord_inv hread with ⟨⟨err, rfl⟩, hnext⟩ | ⟨reply, rfl, hinner⟩
          · exact ih next log (hnext ▸ hfailed log)
          · simp only
            rw [← List.append_assoc]
            refine ih next _ ?_
            rcases readRecordInner_inv hinner with
              ⟨hreceived, hnext, -⟩ | ⟨fragment, state, hopen, hreceived, hall, -⟩
            · rw [hreceived, hnext, List.append_nil]
              exact hP
            · rw [hreceived]
              exact handleAll_induct (hhandle entropy) (hunframe _ _ _ _ _ hP hopen) hall

/-! ### The steps of a run -/

/-- The steps of a run: those of every read that succeeded. -/
def taken (endpoint : Endpoint ε σ) :
    Reassembling σ → List (Entropy × Bytes) → List (Taken σ)
  | _, [] => []
  | handshake, (entropy, record) :: rest =>
      match endpoint.readRecord entropy handshake record with
      | (.ok _, next) => endpoint.recordSteps entropy handshake record ++ taken endpoint next rest
      | (.error _, next) => taken endpoint next rest

/-- The invariant rule for the steps of a run: what survives a failure and the opener's moves
and is kept by every step, holds after every run. -/
theorem taken_induct (endpoint : Endpoint ε σ) {P : List (Taken σ) → σ → Prop}
    (hfailed : ∀ log s, P log s → P log endpoint.failed)
    (hunframe : ∀ log s record fragment s', P log s →
      endpoint.unframe s record = .ok (fragment, s') → P log s')
    (hhandle : ∀ entropy log s m reply s', P log s →
      endpoint.handle entropy s m = .ok (reply, s') →
      P (log ++ [⟨entropy, s, m, reply, s'⟩]) s') :
    ∀ (inputs : List (Entropy × Bytes)) (handshake : Reassembling σ) (log : List (Taken σ)),
      P log handshake.state →
      P (log ++ endpoint.taken handshake inputs) (endpoint.run handshake inputs).state := by
  intro inputs
  induction inputs with
  | nil =>
      intro handshake log hP
      simpa [taken, run] using hP
  | cons input rest ih =>
      intro handshake log hP
      obtain ⟨entropy, record⟩ := input
      cases hread : endpoint.readRecord entropy handshake record with
      | mk result next =>
          have hrun : endpoint.run handshake ((entropy, record) :: rest) = endpoint.run next rest := by
            simp [run, hread]
          rw [taken, hread, hrun]
          rcases readRecord_inv hread with ⟨⟨err, rfl⟩, hnext⟩ | ⟨reply, rfl, hinner⟩
          · exact ih next log (hnext ▸ hfailed log _ hP)
          · simp only
            rw [← List.append_assoc]
            exact ih next _ (readRecord_induct endpoint hfailed hunframe hhandle log hP hread)

/-- Every step of a run handles its message. -/
theorem taken_handle (endpoint : Endpoint ε σ) (inputs : List (Entropy × Bytes))
    (handshake : Reassembling σ) : ∀ step ∈ endpoint.taken handshake inputs,
      endpoint.handle step.entropy step.before step.message = .ok (step.reply, step.after) := by
  have hrun := taken_induct endpoint
    (P := fun log _ => ∀ step ∈ log,
      endpoint.handle step.entropy step.before step.message = .ok (step.reply, step.after))
    (fun _ _ hP => hP) (fun _ _ _ _ _ hP _ => hP)
    (fun _ _ _ _ _ _ hP h => List.forall_mem_append.mpr ⟨hP, List.forall_mem_singleton.mpr h⟩)
    inputs handshake [] (by simp)
  exact hrun

/-- What a run accepts is what its steps took. -/
theorem accepted_eq_taken (endpoint : Endpoint ε σ) :
    ∀ (inputs : List (Entropy × Bytes)) (handshake : Reassembling σ),
      endpoint.accepted handshake inputs = (endpoint.taken handshake inputs).map (·.message) := by
  intro inputs
  induction inputs with
  | nil => intro handshake; rfl
  | cons input rest ih =>
      intro handshake
      obtain ⟨entropy, record⟩ := input
      cases hread : endpoint.readRecord entropy handshake record with
      | mk result next =>
          rw [taken, accepted, hread]
          rcases readRecord_inv hread with ⟨⟨err, rfl⟩, -⟩ | ⟨reply, rfl, hinner⟩
          · exact ih next
          · simp only
            rw [List.map_append, ih next]
            congr 1
            exact received_eq_recordSteps hinner

/-- What a run answers is what its steps do. -/
theorem replies_eq_taken (endpoint : Endpoint ε σ) :
    ∀ (inputs : List (Entropy × Bytes)) (handshake : Reassembling σ),
      endpoint.replies handshake inputs = (endpoint.taken handshake inputs).flatMap (·.reply) := by
  intro inputs
  induction inputs with
  | nil => intro handshake; rfl
  | cons input rest ih =>
      intro handshake
      obtain ⟨entropy, record⟩ := input
      cases hread : endpoint.readRecord entropy handshake record with
      | mk result next =>
          rw [taken, replies, hread]
          rcases readRecord_inv hread with ⟨⟨err, rfl⟩, -⟩ | ⟨reply, rfl, hinner⟩
          · exact ih next
          · simp only
            rw [List.flatMap_append, ih next]
            congr 1
            rcases recordSteps_inv hinner with
              ⟨hsteps, -, rfl⟩ | ⟨fragment, state, -, hsteps, hall⟩
            · rw [hsteps]
              rfl
            · rw [hsteps]
              exact (stepsOf_of_handleAll hall).2.symm

end Endpoint

end RustyTls
