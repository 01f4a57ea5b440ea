import RustyTls.Schedule
import RustyTls.Verify

/-!
# RustyTls.Keys

Cipher suites (from `handrolled/client.rs`), ephemeral key exchange (`handrolled/kx.rs`) and
signing keys (`handrolled/sign.rs`).
-/

namespace RustyTls

open Core

/-! ### Cipher suites -/

/-- A TLS 1.3 cipher suite, as its wire value. -/
structure CipherSuite where
  code : UInt16
  deriving Repr, DecidableEq

namespace CipherSuite

def tlsAes128GcmSha256 : CipherSuite := ⟨0x1301⟩
def tlsAes256GcmSha384 : CipherSuite := ⟨0x1302⟩
def tlsChacha20Poly1305Sha256 : CipherSuite := ⟨0x1303⟩

def supported : List CipherSuite :=
  [tlsAes256GcmSha384, tlsAes128GcmSha256, tlsChacha20Poly1305Sha256]

/-- The AEAD and the hash of a suite this code implements. -/
def parts (suite : CipherSuite) : Option (Aead × Hash) :=
  if suite.code = 0x1301 then some (.aes128Gcm, .sha256)
  else if suite.code = 0x1302 then some (.aes256Gcm, .sha384)
  else if suite.code = 0x1303 then some (.chacha20Poly1305, .sha256)
  else none

end CipherSuite

/-! ### Key exchange -/

inductive KxError
  | unsupportedGroup (group : UInt16)
  | generation
  | badPeerKey
  deriving Repr, DecidableEq

/-- A key exchange group. -/
inductive NamedGroup
  | secP256R1
  | secP384R1
  | x25519
  deriving Repr, DecidableEq

namespace NamedGroup

def asU16 : NamedGroup → UInt16
  | .secP256R1 => 0x0017
  | .secP384R1 => 0x0018
  | .x25519 => 0x001d

def fromU16 (value : UInt16) : Option NamedGroup :=
  if value = 0x0017 then some .secP256R1
  else if value = 0x0018 then some .secP384R1
  else if value = 0x001d then some .x25519
  else none

def ringAlgorithm : NamedGroup → AgreementAlgorithm
  | .secP256R1 => .ecdhP256
  | .secP384R1 => .ecdhP384
  | .x25519 => .x25519

@[simp] theorem fromU16_asU16 (group : NamedGroup) : fromU16 group.asU16 = some group := by
  cases group <;> rfl

theorem asU16_injective {a b : NamedGroup} (h : a.asU16 = b.asU16) : a = b := by
  have hsome := congrArg fromU16 h
  simpa using hsome

end NamedGroup

/-- An ephemeral key pair. -/
structure KeyExchange where
  group : NamedGroup
  secret : Bytes
  publicKey : Bytes
  deriving Repr, DecidableEq

namespace KeyExchange

def generate (ring : Ring) (entropy : Entropy) (group : NamedGroup) :
    Except KxError KeyExchange := do
  let secret ← okOr (entropy.ephemeral group.ringAlgorithm) KxError.generation
  let publicKey ← okOr (ring.computePublicKey group.ringAlgorithm secret) KxError.generation
  .ok { group, secret, publicKey }

theorem generate_inv {ring : Ring} {entropy : Entropy} {group : NamedGroup}
    {kx : KeyExchange} (h : generate ring entropy group = .ok kx) : kx.group = group ∧
      ring.computePublicKey kx.group.ringAlgorithm kx.secret = some kx.publicKey := by
  simp only [generate, bind_eq_ok, okOr_eq_ok] at h
  obtain ⟨secret, -, key, hkey, heq⟩ := h
  obtain rfl := Except.ok.inj heq
  exact ⟨rfl, hkey⟩

/-- The secret shared with the holder of `peerPublicKey`. -/
def agree (ring : Ring) (kx : KeyExchange) (peerPublicKey : Bytes) : Except KxError Bytes :=
  okOr (ring.agreeEphemeral kx.group.ringAlgorithm kx.secret peerPublicKey) .badPeerKey

end KeyExchange

/-! ### Signing -/

inductive SignError
  | badKey
  | unsupportedScheme (scheme : SignatureScheme)
  | failed
  deriving Repr, DecidableEq

/-- A private key, of one of the kinds this code signs with. The scheme of an ECDSA key is
the one its curve fixes. -/
inductive SigningKey
  | ecdsaP256 (pair : Bytes)
  | ecdsaP384 (pair : Bytes)
  | ed25519 (pair : Bytes)
  | rsa (pair : Bytes)
  deriving Repr, DecidableEq

namespace SigningKey

/-- The schemes a key can produce, in the order it prefers them. -/
def schemes : SigningKey → List SignatureScheme
  | .ecdsaP256 _ => [.ecdsaSecp256r1Sha256]
  | .ecdsaP384 _ => [.ecdsaSecp384r1Sha384]
  | .ed25519 _ => [.ed25519]
  | .rsa _ => [.rsaPssRsaeSha256, .rsaPssRsaeSha384, .rsaPssRsaeSha512]

def pair : SigningKey → Bytes
  | .ecdsaP256 pair | .ecdsaP384 pair | .ed25519 pair | .rsa pair => pair

/-- The `ring` algorithm a key signs with under a scheme. Only RSA consults the scheme. -/
def ringAlgorithm (key : SigningKey) (scheme : SignatureScheme) : SigningAlgorithm :=
  match key with
  | .ecdsaP256 _ => .ecdsaP256Sha256Asn1
  | .ecdsaP384 _ => .ecdsaP384Sha384Asn1
  | .ed25519 _ => .ed25519
  | .rsa _ =>
      if scheme = .rsaPssRsaeSha384 then .rsaPssSha384
      else if scheme = .rsaPssRsaeSha512 then .rsaPssSha512
      else .rsaPssSha256

def sign (ring : Ring) (entropy : Entropy) (key : SigningKey) (scheme : SignatureScheme)
    (message : Bytes) : Except SignError Bytes := do
  refuse (scheme ∉ key.schemes) (.unsupportedScheme scheme)
  okOr (ring.sign (key.ringAlgorithm scheme) key.pair entropy.signing message) .failed

end SigningKey

end RustyTls
