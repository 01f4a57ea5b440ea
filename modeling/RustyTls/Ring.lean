import RustyTls.Core.Bytes

/-!
# RustyTls.Ring

The cryptographic primitives, which live in the `ring` crate and not in this repository.

`Ring` is a record of functions, one per primitive the source calls, indexed by the crate's
own algorithm constants. Nothing is assumed of them here: a result that needs a primitive
to behave takes the documented behaviour it needs from `Ring.Lawful`, and most results need
none of it. Keys are octet strings throughout.

Randomness is the other thing the crate supplies. One call of an entry point of the
handshake generates at most one ephemeral key, makes at most one signature, and fills its
buffers in a fixed order; `Entropy` is what the system returns to these draws.
-/

namespace RustyTls

open Core

/-- `ring::digest` and `ring::hmac` algorithms. -/
inductive DigestAlgorithm
  | sha256
  | sha384
  deriving Repr, DecidableEq

/-- The octets of a digest. -/
def DigestAlgorithm.outputLen : DigestAlgorithm → Nat
  | .sha256 => 32
  | .sha384 => 48

/-- `ring::aead` algorithms. -/
inductive AeadAlgorithm
  | aes128Gcm
  | aes256Gcm
  | chacha20Poly1305
  deriving Repr, DecidableEq

/-- The octets of a key. -/
def AeadAlgorithm.keyLen : AeadAlgorithm → Nat
  | .aes128Gcm => 16
  | .aes256Gcm | .chacha20Poly1305 => 32

/-- `ring::agreement` algorithms. -/
inductive AgreementAlgorithm
  | ecdhP256
  | ecdhP384
  | x25519
  deriving Repr, DecidableEq

/-- `ring::signature` verification algorithms. -/
inductive VerificationAlgorithm
  | rsaPkcs1Sha256
  | rsaPkcs1Sha384
  | rsaPkcs1Sha512
  | rsaPssSha256
  | rsaPssSha384
  | rsaPssSha512
  | ecdsaP256Sha256Asn1
  | ecdsaP384Sha256Asn1
  | ecdsaP256Sha384Asn1
  | ecdsaP384Sha384Asn1
  | ed25519
  deriving Repr, DecidableEq

/-- `ring::signature` signing algorithms. -/
inductive SigningAlgorithm
  | ecdsaP256Sha256Asn1
  | ecdsaP384Sha384Asn1
  | ed25519
  | rsaPssSha256
  | rsaPssSha384
  | rsaPssSha512
  deriving Repr, DecidableEq

/-- The primitives. A fallible one returns `none` for `ring::error::Unspecified`. -/
structure Ring where
  /-- `digest::digest`. -/
  digest : DigestAlgorithm → (message : Bytes) → Bytes
  /-- `hmac::sign`. -/
  hmacSign : DigestAlgorithm → (key message : Bytes) → Bytes
  /-- `LessSafeKey::seal_in_place_append_tag`. -/
  sealInPlace : AeadAlgorithm → (key nonce aad plaintext : Bytes) → Option Bytes
  /-- `LessSafeKey::open_in_place`. -/
  openInPlace : AeadAlgorithm → (key nonce aad ciphertext : Bytes) → Option Bytes
  /-- `EphemeralPrivateKey::compute_public_key`. -/
  computePublicKey : AgreementAlgorithm → (secret : Bytes) → Option Bytes
  /-- `agreement::agree_ephemeral`. -/
  agreeEphemeral : AgreementAlgorithm → (secret peer : Bytes) → Option Bytes
  /-- `UnparsedPublicKey::verify`. -/
  verify : VerificationAlgorithm → (key message signature : Bytes) → Bool
  /-- The key pairs' `sign`, with the randomness it draws. -/
  sign : SigningAlgorithm → (pair rng message : Bytes) → Option Bytes

namespace Ring

/-- `hmac::verify`: recompute the tag and compare. -/
def hmacVerify (ring : Ring) (alg : DigestAlgorithm) (key message tag : Bytes) : Bool :=
  ring.hmacSign alg key message == tag

end Ring

/-- A `w`-octet checksum: every octet enters it, and so does the length. -/
def checksum (w : Nat) (bytes : Bytes) : Bytes :=
  beBytes w (bytes.foldl (fun acc b => acc * 257 + b.toNat + 1) 1)

/-- An executable instance, for running the model on concrete inputs. Digests, tags and
signatures are checksums, the cipher is the identity, and the groups are multiplication. It
has the shape of the real primitives and none of their strength. -/
def Ring.sample : Ring where
  digest alg message := checksum alg.outputLen message
  hmacSign alg key message := checksum alg.outputLen (key ++ message)
  sealInPlace _ key nonce aad plaintext :=
    some (plaintext ++ checksum 16 (key ++ nonce ++ aad ++ plaintext))
  openInPlace _ key nonce aad ciphertext :=
    let plaintext := ciphertext.take (ciphertext.length - 16)
    if plaintext ++ checksum 16 (key ++ nonce ++ aad ++ plaintext) = ciphertext then
      some plaintext
    else
      none
  computePublicKey _ secret := some (beBytes 32 (9 * beNat secret))
  agreeEphemeral _ secret peer := some (beBytes 32 (beNat secret * beNat peer))
  verify _ key message signature := checksum 32 (key ++ message) == signature
  sign _ pair _ message := some (checksum 32 (pair ++ message))

/-- What the crate documents of the primitives: how long their results are, and that a cipher
opens what it sealed. -/
structure Ring.Lawful (ring : Ring) : Prop where
  digest_length : ∀ alg message, (ring.digest alg message).length = alg.outputLen
  hmac_length : ∀ alg key message, (ring.hmacSign alg key message).length = alg.outputLen
  seal_length : ∀ alg key nonce aad plaintext ciphertext,
    ring.sealInPlace alg key nonce aad plaintext = some ciphertext →
      ciphertext.length = plaintext.length + 16
  open_seal : ∀ alg key nonce aad plaintext ciphertext,
    ring.sealInPlace alg key nonce aad plaintext = some ciphertext →
      ring.openInPlace alg key nonce aad ciphertext = some plaintext

theorem Ring.sample_lawful : Ring.sample.Lawful where
  digest_length _ _ := beBytes_length ..
  hmac_length _ _ _ := beBytes_length ..
  seal_length := by
    intro alg key nonce aad plaintext ciphertext h
    obtain rfl := Option.some.inj h
    simp [checksum]
  open_seal := by
    intro alg key nonce aad plaintext ciphertext h
    obtain rfl := Option.some.inj h
    simp [sample, checksum]

/-- What the crate documents of honest use: a record is sealed, a public key is a point of its
group, and the two ends of an agreement get the same secret. -/
structure Ring.Complete (ring : Ring) : Prop extends ring.Lawful where
  seals : ∀ alg key nonce aad plaintext, key.length = alg.keyLen → nonce.length = 12 →
    plaintext.length < 2 ^ 32 → ∃ ciphertext, ring.sealInPlace alg key nonce aad plaintext = some ciphertext
  publicKey_length : ∀ alg secret key, ring.computePublicKey alg secret = some key → key.length ≤ 97
  agrees : ∀ alg a b publicA publicB, ring.computePublicKey alg a = some publicA →
    ring.computePublicKey alg b = some publicB → ∃ shared,
      ring.agreeEphemeral alg a publicB = some shared ∧ ring.agreeEphemeral alg b publicA = some shared

theorem Ring.sample_complete : Ring.sample.Complete where
  toLawful := Ring.sample_lawful
  seals _ _ _ _ _ _ _ _ := ⟨_, rfl⟩
  publicKey_length := by
    intro alg secret key h
    obtain rfl := Option.some.inj h
    simp
  agrees := by
    intro alg a b publicA publicB hA hB
    obtain rfl := Option.some.inj hA
    obtain rfl := Option.some.inj hB
    refine ⟨_, rfl, congrArg some ?_⟩
    rw [← beBytes_mod, ← beBytes_mod 32 (beNat a * _), beNat_beBytes_mod, beNat_beBytes_mod,
      Nat.mul_mod_mod, Nat.mul_mod_mod]
    congr 2
    ring

/-- The private key `pair` signs under `signing` what the public key `key` verifies under
`verification`. -/
def Ring.KeyPair (ring : Ring) (signing : SigningAlgorithm) (verification : VerificationAlgorithm)
    (pair key : Bytes) : Prop :=
  ∀ rng message, ∃ signature, ring.sign signing pair rng message = some signature ∧
    signature ≠ [] ∧ ring.verify verification key message signature = true

/-- What the system random source returns to the draws of one call. -/
structure Entropy where
  /-- The ephemeral private key, or a failure to generate one. -/
  ephemeral : AgreementAlgorithm → Option Bytes
  /-- The octets of the `draw`-th `fill` of the call, of a buffer of the given length. -/
  fill : (draw length : Nat) → Option Bytes
  /-- The randomness of a signature. -/
  signing : Bytes
  /-- A filled buffer keeps its length. -/
  fill_length : ∀ draw length bytes, fill draw length = some bytes → bytes.length = length

/-- A random source that is not random, for running the model. -/
def Entropy.sample (seed : UInt8) : Entropy where
  ephemeral _ := some [seed]
  fill draw length := some (List.replicate length (seed + UInt8.ofNat draw))
  signing := []
  fill_length := by
    intro draw length bytes h
    obtain rfl := Option.some.inj h
    simp

end RustyTls
