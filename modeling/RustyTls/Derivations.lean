import RustyTls.Endpoint
import RustyTls.Labels
import RustyTls.Core.Logged

/-!
# RustyTls.Derivations

The calls of `expand_label` in the key schedule, and how a read keeps them.

Each function that derives something has a twin that also logs what `hkdf_label` is called with:
the twin of `f` is `loggedF`, it has the body of `f`, and `f_makes` says that it comes to what `f`
does and that its calls are in range. The labels are those of a short table, the lengths are those
of hashes, keys and nonces, and a context is nothing, a digest or the nonce of a ticket.

`read_record` derives nothing itself. Its twin runs the twin of the handler, and what is shown of a
handler holds of every run (`run_makes`).
-/

namespace RustyTls

open Core Core.Logged

namespace LabelInput

/-- In range, and with a label. -/
structure Permitted (input : LabelInput) : Prop where
  range : input.InRange
  label : input.label ≠ ""

end LabelInput

/-- The labels of every derivation. -/
def derivationLabels : List String :=
  ["derived", "res binder", "c hs traffic", "s hs traffic", "c ap traffic", "s ap traffic",
    "res master", "resumption", "finished", "key", "iv", "traffic upd"]

theorem derivationLabels_length :
    ∀ label ∈ derivationLabels, label ≠ "" ∧ (ascii label).length ≤ 249 := by
  decide +kernel

/-! ### Expansion -/

def loggedExpandLabel (ring : Ring) (hash : Hash) (secret : Bytes) (label : String)
    (context : Bytes) (length : Nat) : Logged LabelInput Bytes where
  value := expandLabel ring hash secret label context length
  log := [⟨length, label, context⟩]

def loggedDeriveSecret (ring : Ring) (hash : Hash) (secret : Bytes) (label : String)
    (transcriptHash : Bytes) : Logged LabelInput Bytes :=
  loggedExpandLabel ring hash secret label transcriptHash hash.len

/-- `x` comes to `a`, and its derivations are in range. -/
abbrev Derives {α : Type} (x : Logged LabelInput α) (a : α) : Prop :=
  Makes LabelInput.Permitted x a

theorem expandLabel_makes {ring : Ring} {hash : Hash} {secret : Bytes} {label : String}
    {context : Bytes} {length : Nat} (hlabel : label ∈ derivationLabels)
    (hcontext : context.length ≤ 255) (hlength : length < 2 ^ 16) :
    Derives (loggedExpandLabel ring hash secret label context length)
      (expandLabel ring hash secret label context length) := by
  obtain ⟨hne, hmax⟩ := derivationLabels_length label hlabel
  refine ⟨rfl, ?_⟩
  intro made hmade
  obtain rfl := List.mem_singleton.mp hmade
  exact ⟨⟨hlength, hmax, hcontext⟩, hne⟩

theorem Hash.len_lt (hash : Hash) : hash.len < 2 ^ 16 := by
  cases hash <;> decide

theorem Aead.keyLen_lt (aead : Aead) : aead.keyLen < 2 ^ 16 := by
  cases aead <;> decide

theorem deriveSecret_makes {ring : Ring} {hash : Hash} {secret : Bytes} {label : String}
    {transcriptHash : Bytes} (hlabel : label ∈ derivationLabels)
    (hcontext : transcriptHash.length ≤ 255) :
    Derives (loggedDeriveSecret ring hash secret label transcriptHash)
      (deriveSecret ring hash secret label transcriptHash) :=
  expandLabel_makes hlabel hcontext hash.len_lt

/-! ### The schedule -/

namespace KeySchedule

def loggedIntoHandshake (ring : Ring) (schedule : KeySchedule) (sharedSecret : Bytes) :
    Logged LabelInput KeySchedule := do
  let derived ← loggedDeriveSecret ring schedule.hash schedule.secret "derived"
    (schedule.hash.emptyHash ring)
  pure ⟨schedule.hash, hkdfExtract ring schedule.hash derived sharedSecret⟩

def loggedIntoMaster (ring : Ring) (schedule : KeySchedule) : Logged LabelInput KeySchedule := do
  let derived ← loggedDeriveSecret ring schedule.hash schedule.secret "derived"
    (schedule.hash.emptyHash ring)
  pure ⟨schedule.hash, hkdfExtract ring schedule.hash derived (List.replicate schedule.hash.len 0)⟩

def loggedDerive (ring : Ring) (schedule : KeySchedule) (label : String) (transcriptHash : Bytes) :
    Logged LabelInput Bytes :=
  loggedDeriveSecret ring schedule.hash schedule.secret label transcriptHash

end KeySchedule

def loggedFinishedKey (ring : Ring) (hash : Hash) (trafficSecret : Bytes) : Logged LabelInput Bytes :=
  loggedExpandLabel ring hash trafficSecret "finished" [] hash.len

def loggedFinishedVerifyData (ring : Ring) (hash : Hash) (trafficSecret transcriptHash : Bytes) :
    Logged LabelInput Bytes := do
  let key ← loggedFinishedKey ring hash trafficSecret
  pure (ring.hmacSign hash.algorithm key transcriptHash)

def loggedVerifyFinished (ring : Ring) (hash : Hash)
    (trafficSecret transcriptHash verifyData : Bytes) : Logged LabelInput Bool := do
  let key ← loggedFinishedKey ring hash trafficSecret
  pure (ring.hmacVerify hash.algorithm key transcriptHash verifyData)

def loggedBinderKey (ring : Ring) (hash : Hash) (psk : Bytes) : Logged LabelInput Bytes :=
  loggedDeriveSecret ring hash (KeySchedule.newWithPsk ring hash psk).secret "res binder"
    (hash.emptyHash ring)

def loggedPskBinder (ring : Ring) (hash : Hash) (psk truncatedTranscriptHash : Bytes) :
    Logged LabelInput Bytes := do
  let key ← loggedBinderKey ring hash psk
  loggedFinishedVerifyData ring hash key truncatedTranscriptHash

def loggedVerifyPskBinder (ring : Ring) (hash : Hash)
    (psk truncatedTranscriptHash binder : Bytes) : Logged LabelInput Bool := do
  let key ← loggedBinderKey ring hash psk
  loggedVerifyFinished ring hash key truncatedTranscriptHash binder

def loggedTrafficKeys (ring : Ring) (hash : Hash) (trafficSecret : Bytes) (keyLen : Nat) :
    Logged LabelInput TrafficKeys := do
  let key ← loggedExpandLabel ring hash trafficSecret "key" [] keyLen
  let iv ← loggedExpandLabel ring hash trafficSecret "iv" [] nonceLen
  pure ⟨key, iv⟩

def loggedUpdateTrafficSecret (ring : Ring) (hash : Hash) (trafficSecret : Bytes) :
    Logged LabelInput Bytes :=
  loggedExpandLabel ring hash trafficSecret "traffic upd" [] hash.len

section
variable {ring : Ring} {hash : Hash} {schedule : KeySchedule} {secret : Bytes}

theorem finishedKey_makes :
    Derives (loggedFinishedKey ring hash secret) (finishedKey ring hash secret) :=
  expandLabel_makes (by decide) (by decide) hash.len_lt

theorem finishedVerifyData_makes {transcriptHash : Bytes} :
    Derives (loggedFinishedVerifyData ring hash secret transcriptHash)
      (finishedVerifyData ring hash secret transcriptHash) :=
  .bind finishedKey_makes (.pure _)

theorem verifyFinished_makes {transcriptHash verifyData : Bytes} :
    Derives (loggedVerifyFinished ring hash secret transcriptHash verifyData)
      (verifyFinished ring hash secret transcriptHash verifyData) :=
  .bind finishedKey_makes (.pure _)

theorem trafficKeys_makes {keyLen : Nat} (hlen : keyLen < 2 ^ 16) :
    Derives (loggedTrafficKeys ring hash secret keyLen) (trafficKeys ring hash secret keyLen) :=
  .bind (expandLabel_makes (by decide) (by decide) hlen)
    (.bind (expandLabel_makes (by decide) (by decide) (by decide)) (.pure _))

theorem updateTrafficSecret_makes :
    Derives (loggedUpdateTrafficSecret ring hash secret) (updateTrafficSecret ring hash secret) :=
  expandLabel_makes (by decide) (by decide) hash.len_lt

variable (lawful : ring.Lawful)
include lawful

/-- A digest is short enough for a context. -/
theorem Hash.hash_le (message : Bytes) : (hash.hash ring message).length ≤ 255 := by
  rw [hash_length lawful]
  exact Nat.le_trans hash.len_le (by decide)

theorem intoHandshake_makes (sharedSecret : Bytes) :
    Derives (schedule.loggedIntoHandshake ring sharedSecret)
      (schedule.intoHandshake ring sharedSecret) :=
  .bind (deriveSecret_makes (by decide) (Hash.hash_le lawful _)) (.pure _)

theorem intoMaster_makes :
    Derives (schedule.loggedIntoMaster ring) (schedule.intoMaster ring) :=
  .bind (deriveSecret_makes (by decide) (Hash.hash_le lawful _)) (.pure _)

/-- A secret derived from a transcript. -/
theorem derive_makes {label : String} {hash : Hash} {message : Bytes}
    (hlabel : label ∈ derivationLabels) :
    Derives (schedule.loggedDerive ring label (hash.hash ring message))
      (schedule.derive ring label (hash.hash ring message)) :=
  deriveSecret_makes hlabel (Hash.hash_le lawful _)

theorem binderKey_makes {psk : Bytes} :
    Derives (loggedBinderKey ring hash psk) (binderKey ring hash psk) :=
  deriveSecret_makes (by decide) (Hash.hash_le lawful _)

theorem pskBinder_makes {psk truncatedTranscriptHash : Bytes} :
    Derives (loggedPskBinder ring hash psk truncatedTranscriptHash)
      (pskBinder ring hash psk truncatedTranscriptHash) :=
  .bind (binderKey_makes lawful) finishedVerifyData_makes

theorem verifyPskBinder_makes {psk truncatedTranscriptHash binder : Bytes} :
    Derives (loggedVerifyPskBinder ring hash psk truncatedTranscriptHash binder)
      (verifyPskBinder ring hash psk truncatedTranscriptHash binder) :=
  .bind (binderKey_makes lawful) verifyFinished_makes

end

/-- Code that may fail, with the derivations it makes. -/
abbrev Deriving (ε α : Type) := ExceptT ε (Logged LabelInput) α

/-! ### Records -/

section
variable {ε σ : Type}

def loggedHandleAll (handle : σ → Message → Deriving ε (Bytes × σ)) :
    σ → List Message → Deriving ε (Bytes × σ)
  | s, [] => pure ([], s)
  | s, message :: rest => do
      let (reply, s) ← handle s message
      let (replies, s) ← loggedHandleAll handle s rest
      pure (reply ++ replies, s)

def loggedDrainLoop (fromHandshake : HandshakeError → ε)
    (handle : σ → Message → Deriving ε (Bytes × σ)) :
    Nat → σ → Bytes → Deriving ε (Bytes × σ × Bytes)
  | 0, s, buffer => pure ([], s, buffer)
  | fuel + 1, s, buffer =>
      let complete := completePrefix buffer
      if complete = 0 then
        pure ([], s, buffer)
      else do
        let ms ← check (mapErr fromHandshake (messages (buffer.take complete)))
        let (reply, s) ← loggedHandleAll handle s ms
        let (replies, s, buffer) ← loggedDrainLoop fromHandshake handle fuel s (buffer.drop complete)
        pure (reply ++ replies, s, buffer)

def loggedDrain (fromHandshake : HandshakeError → ε)
    (handle : σ → Message → Deriving ε (Bytes × σ)) (s : σ) (buffer : Bytes) :
    Deriving ε (Bytes × σ × Bytes) :=
  loggedDrainLoop fromHandshake handle buffer.length s buffer

namespace Endpoint

variable (endpoint : Endpoint ε σ) (handle : Entropy → σ → Message → Deriving ε (Bytes × σ))

def loggedReadRecordInner (entropy : Entropy) (handshake : Reassembling σ) (record : Bytes) :
    Deriving ε (Bytes × Reassembling σ) :=
  if record.length < headerLen then
    check (.error (endpoint.ofRecord (.truncated record.length headerLen)))
  else if record.headD 0 = changeCipherSpec then
    pure ([], handshake)
  else do
    let (fragment, state) ← check (endpoint.unframe handshake.state record)
    let (reply, state, buffer) ← loggedDrain endpoint.ofHandshake (handle entropy) state
      (handshake.buffer ++ fragment)
    pure (reply, ⟨state, buffer⟩)

def loggedReadRecord [DecidableEq σ] (entropy : Entropy) (handshake : Reassembling σ)
    (record : Bytes) : Logged LabelInput (Except ε Bytes × Reassembling σ) :=
  if handshake.state = endpoint.failed then
    pure (.error endpoint.alreadyFailed, handshake)
  else do
    match ← (endpoint.loggedReadRecordInner handle entropy handshake record).run with
    | .ok (reply, handshake) => pure (.ok reply, handshake)
    | .error err => pure (.error err, { handshake with state := endpoint.failed })

/-- The records of a run one after the other. -/
def loggedRun [DecidableEq σ] :
    Reassembling σ → List (Entropy × Bytes) → Logged LabelInput (Reassembling σ)
  | handshake, [] => pure handshake
  | handshake, (entropy, record) :: rest => do
      let (_, next) ← endpoint.loggedReadRecord handle entropy handshake record
      loggedRun next rest

end Endpoint

end

section
variable {ε σ : Type} {plain : σ → Message → Except ε (Bytes × σ)}
  {handle : σ → Message → Deriving ε (Bytes × σ)}

theorem handleAll_makes (hhandle : ∀ s m, Derives (handle s m).run (plain s m)) :
    ∀ (ms : List Message) (s : σ), Derives (loggedHandleAll handle s ms).run (handleAll plain s ms) := by
  intro ms
  induction ms with
  | nil =>
      intro s
      exact .pure _
  | cons m ms ih =>
      intro s
      refine .attempt (hhandle s m) ?_
      intro p _
      refine .attempt (ih p.2) ?_
      intro q _
      exact .pure _

theorem drainLoop_makes (hhandle : ∀ s m, Derives (handle s m).run (plain s m))
    (fromHandshake : HandshakeError → ε) : ∀ (fuel : Nat) (s : σ) (buffer : Bytes),
    Derives (loggedDrainLoop fromHandshake handle fuel s buffer).run
      (drainLoop fromHandshake plain fuel s buffer) := by
  intro fuel
  induction fuel with
  | zero =>
      intro s buffer
      exact .pure _
  | succ fuel ih =>
      intro s buffer
      rw [loggedDrainLoop, drainLoop]
      split
      · exact .pure _
      refine .check ?_
      intro ms _
      refine .attempt (handleAll_makes hhandle ms s) ?_
      intro p _
      refine .attempt (ih p.2 _) ?_
      intro q _
      exact .pure _

end

namespace Endpoint

variable {ε σ : Type} {endpoint : Endpoint ε σ}
  {handle : Entropy → σ → Message → Deriving ε (Bytes × σ)}

theorem readRecordInner_makes
    (hhandle : ∀ entropy s m, Derives (handle entropy s m).run (endpoint.handle entropy s m))
    (entropy : Entropy) (handshake : Reassembling σ) (record : Bytes) :
    Derives (endpoint.loggedReadRecordInner handle entropy handshake record).run
      (endpoint.readRecordInner entropy handshake record) := by
  rw [loggedReadRecordInner, readRecordInner]
  split
  · exact .last _
  split
  · exact .pure _
  refine .check ?_
  intro p _
  refine .attempt (drainLoop_makes (hhandle entropy) _ _ p.2 _) ?_
  intro q _
  exact .pure _

variable [DecidableEq σ]

theorem readRecord_makes
    (hhandle : ∀ entropy s m, Derives (handle entropy s m).run (endpoint.handle entropy s m))
    (entropy : Entropy) (handshake : Reassembling σ) (record : Bytes) :
    Derives (endpoint.loggedReadRecord handle entropy handshake record)
      (endpoint.readRecord entropy handshake record) := by
  rw [loggedReadRecord, readRecord]
  split
  · exact .pure _
  have hinner := readRecordInner_makes hhandle entropy handshake record
  generalize endpoint.readRecordInner entropy handshake record = result at hinner ⊢
  refine .bind hinner ?_
  cases result with
  | ok p => exact .pure _
  | error err => exact .pure _

theorem run_makes
    (hhandle : ∀ entropy s m, Derives (handle entropy s m).run (endpoint.handle entropy s m)) :
    ∀ (inputs : List (Entropy × Bytes)) (handshake : Reassembling σ),
      Derives (endpoint.loggedRun handle handshake inputs) (endpoint.run handshake inputs) := by
  intro inputs
  induction inputs with
  | nil =>
      intro handshake
      exact .pure _
  | cons input rest ih =>
      intro handshake
      exact .bind (readRecord_makes hhandle input.1 handshake input.2) (ih _)

end Endpoint

end RustyTls
