import RustyTls.Hkdf
import RustyTls.Keys

/-!
# RustyTls.ScheduleSound

What the key schedule derives has the length that was asked for, so the keys it hands to the
record layer are never refused.

The counter of `hkdfExpand` leaves room for 254 blocks, and no derivation of the protocol asks for
more than two.
-/

namespace RustyTls

open Core

section Lengths

variable {ring : Ring} (lawful : ring.Lawful) (hash : Hash)
include lawful

theorem Hash.hash_length (message : Bytes) : (hash.hash ring message).length = hash.len := by
  rw [Hash.hash, lawful.digest_length, Hash.outputLen_algorithm]

theorem hmacSign_length (key message : Bytes) :
    (ring.hmacSign hash.algorithm key message).length = hash.len := by
  rw [lawful.hmac_length, Hash.outputLen_algorithm]

/-- HKDF-Expand yields what was asked for, up to 254 blocks. -/
theorem hkdfExpand_isSome (prk info : Bytes) {length : Nat} (h : length ≤ 254 * hash.len) :
    ∃ bytes, hkdfExpand ring hash prk info length = some bytes ∧ bytes.length = length := by
  rw [hkdfExpand_eq hash prk info lawful.hmac_length, if_pos h]
  exact ⟨_, rfl, hkdfOutput_length hash prk info lawful.hmac_length (by omega)⟩

/-- Every derivation of the protocol has the length it asks for. -/
theorem expandLabel_length (secret : Bytes) (label : String) (context : Bytes) {length : Nat}
    (h : length ≤ 254 * hash.len) :
    (expandLabel ring hash secret label context length).length = length := by
  obtain ⟨bytes, hbytes, hlen⟩ :=
    hkdfExpand_isSome lawful hash secret (hkdfLabel length label context) h
  rw [expandLabel, hbytes, Option.getD_some, hlen]

theorem finishedVerifyData_length (secret transcriptHash : Bytes) :
    (finishedVerifyData ring hash secret transcriptHash).length = hash.len :=
  hmacSign_length lawful hash _ _

/-! ### Keys for the record layer -/

theorem trafficKeys_length (secret : Bytes) (aead : Aead) :
    (trafficKeys ring hash secret aead.keyLen).key.length = aead.keyLen ∧
      (trafficKeys ring hash secret aead.keyLen).iv.length = nonceLen := by
  have hlen := hash.len_pos
  constructor
  · refine expandLabel_length lawful hash secret "key" [] ?_
    cases aead <;> simp only [Aead.keyLen] <;> omega
  · refine expandLabel_length lawful hash secret "iv" [] ?_
    simp only [nonceLen]
    omega

/-- The key of one direction, from its traffic secret. -/
def directionKey (secret : Bytes) (aead : Aead) : DirectionKey where
  alg := aead
  key := (trafficKeys ring hash secret aead.keyLen).key
  iv := (trafficKeys ring hash secret aead.keyLen).iv
  key_length := (trafficKeys_length lawful hash secret aead).1
  iv_length := (trafficKeys_length lawful hash secret aead).2

theorem sealer_new (secret : Bytes) (aead : Aead) :
    Sealer.new aead (trafficKeys ring hash secret aead.keyLen).key
      (trafficKeys ring hash secret aead.keyLen).iv
        = .ok ⟨directionKey lawful hash secret aead, .startingAt 0⟩ := by
  obtain ⟨hkey, hiv⟩ := trafficKeys_length lawful hash secret aead
  rw [Sealer.new, Sealer.newAt, DirectionKey.new, dif_pos hkey, dif_pos hiv]
  rfl

theorem opener_new (secret : Bytes) (aead : Aead) :
    Opener.new aead (trafficKeys ring hash secret aead.keyLen).key
      (trafficKeys ring hash secret aead.keyLen).iv
        = .ok ⟨directionKey lawful hash secret aead, .startingAt 0⟩ := by
  obtain ⟨hkey, hiv⟩ := trafficKeys_length lawful hash secret aead
  rw [Opener.new, Opener.newAt, DirectionKey.new, dif_pos hkey, dif_pos hiv]
  rfl

end Lengths

end RustyTls
