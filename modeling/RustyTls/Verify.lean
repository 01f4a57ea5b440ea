import RustyTls.Ring
import RustyTls.X509

/-!
# RustyTls.Verify

Signature verification (`handrolled/verify.rs`): which algorithm, which key, which bytes.

There are two namespaces with opposite rules about curves. An X.509 signature algorithm
names a hash and takes the curve from the key; a TLS `SignatureScheme` names both and the
key has to be on the curve. Everything refused is an error, and there is no configuration
that relaxes it.
-/

namespace RustyTls

open Core Der

/-- Why a signature was not accepted. -/
inductive VerifyError
  | weakSignatureAlgorithm (name : String)
  | unsupportedSignatureAlgorithm
  | unsupportedKeyAlgorithm
  | keyAlgorithmMismatch
  | unsupportedCurve
  | curveMismatch
  | certificateOnlyScheme
  | malformedParameters
  | badSignature
  deriving Repr, DecidableEq

/-! ### Signature algorithm OIDs -/

namespace Oid

def md5Rsa : ObjectIdentifier := ⟨[0x2a, 0x86, 0x48, 0x86, 0xf7, 0x0d, 0x01, 0x01, 0x04]⟩
def sha1Rsa : ObjectIdentifier := ⟨[0x2a, 0x86, 0x48, 0x86, 0xf7, 0x0d, 0x01, 0x01, 0x05]⟩
def sha256Rsa : ObjectIdentifier := ⟨[0x2a, 0x86, 0x48, 0x86, 0xf7, 0x0d, 0x01, 0x01, 0x0b]⟩
def sha384Rsa : ObjectIdentifier := ⟨[0x2a, 0x86, 0x48, 0x86, 0xf7, 0x0d, 0x01, 0x01, 0x0c]⟩
def sha512Rsa : ObjectIdentifier := ⟨[0x2a, 0x86, 0x48, 0x86, 0xf7, 0x0d, 0x01, 0x01, 0x0d]⟩
def sha1Ecdsa : ObjectIdentifier := ⟨[0x2a, 0x86, 0x48, 0xce, 0x3d, 0x04, 0x01]⟩
def sha256Ecdsa : ObjectIdentifier := ⟨[0x2a, 0x86, 0x48, 0xce, 0x3d, 0x04, 0x03, 0x02]⟩
def sha384Ecdsa : ObjectIdentifier := ⟨[0x2a, 0x86, 0x48, 0xce, 0x3d, 0x04, 0x03, 0x03]⟩
def p256 : ObjectIdentifier := ⟨[0x2a, 0x86, 0x48, 0xce, 0x3d, 0x03, 0x01, 0x07]⟩
def p384 : ObjectIdentifier := ⟨[0x2b, 0x81, 0x04, 0x00, 0x22]⟩

end Oid

/-! ### Algorithm parameters -/

/-- Require an `AlgorithmIdentifier`'s parameters to be `NULL` or absent. -/
def requireNullOrAbsentParameters (identifier : AlgorithmIdentifier) :
    Except VerifyError Unit :=
  match identifier.parameters with
  | none => .ok ()
  | some bytes => do
      let (_, reader) ← mapErr (fun _ => VerifyError.malformedParameters)
        (on (Der.Reader.new bytes) readNull)
      mapErr (fun _ => VerifyError.malformedParameters) reader.finish

/-- Require an `AlgorithmIdentifier` to carry no parameters at all. -/
def requireAbsentParameters (identifier : AlgorithmIdentifier) : Except VerifyError Unit :=
  refuse (identifier.parameters.isSome = true) .malformedParameters

/-- The elliptic curves this module verifies over. -/
inductive Curve
  | p256
  | p384
  deriving Repr, DecidableEq

/-- Read the curve an EC key is on, from the key's own parameters. -/
def namedCurve (key : SubjectPublicKeyInfo) : Except VerifyError Curve := do
  let bytes ← okOr key.algorithm.parameters VerifyError.malformedParameters
  let (named, reader) ← mapErr (fun _ => VerifyError.malformedParameters)
    (on (Der.Reader.new bytes) readOid)
  mapErr (fun _ => VerifyError.malformedParameters) reader.finish
  if named = Oid.p256 then
    .ok .p256
  else if named = Oid.p384 then
    .ok .p384
  else
    .error .unsupportedCurve

/-- The error for a key whose algorithm is not the one a signature needs: a kind this module
handles, but not for this signature, or a kind it does not handle. -/
def wrongKeyAlgorithm (key : SubjectPublicKeyInfo) : VerifyError :=
  if key.algorithm.oid ∈ [Oid.rsaEncryption, Oid.ecPublicKey, Oid.ed25519] then
    .keyAlgorithmMismatch
  else
    .unsupportedKeyAlgorithm

/-! ### The X.509 namespace -/

/-- A signature algorithm this module will verify. -/
inductive SignatureAlgorithm
  | rsaPkcs1Sha256
  | rsaPkcs1Sha384
  | rsaPkcs1Sha512
  | ecdsaSha256
  | ecdsaSha384
  | ed25519
  deriving Repr, DecidableEq

namespace SignatureAlgorithm

def ofOid (oid : ObjectIdentifier) : Except VerifyError SignatureAlgorithm :=
  if oid = Oid.sha256Rsa then .ok .rsaPkcs1Sha256
  else if oid = Oid.sha384Rsa then .ok .rsaPkcs1Sha384
  else if oid = Oid.sha512Rsa then .ok .rsaPkcs1Sha512
  else if oid = Oid.sha256Ecdsa then .ok .ecdsaSha256
  else if oid = Oid.sha384Ecdsa then .ok .ecdsaSha384
  else if oid = Oid.ed25519 then .ok .ed25519
  else if oid = Oid.sha1Rsa then .error (.weakSignatureAlgorithm "sha1WithRSAEncryption")
  else if oid = Oid.md5Rsa then .error (.weakSignatureAlgorithm "md5WithRSAEncryption")
  else if oid = Oid.sha1Ecdsa then .error (.weakSignatureAlgorithm "ecdsa-with-SHA1")
  else .error .unsupportedSignatureAlgorithm

/-- RFC 4055 §5 requires `NULL` for RSA PKCS#1 v1.5, RFC 5758 §3.2 absent for ECDSA. -/
def checkParameters (algorithm : SignatureAlgorithm) (identifier : AlgorithmIdentifier) :
    Except VerifyError Unit :=
  match algorithm with
  | .rsaPkcs1Sha256 | .rsaPkcs1Sha384 | .rsaPkcs1Sha512 =>
      requireNullOrAbsentParameters identifier
  | .ecdsaSha256 | .ecdsaSha384 | .ed25519 => requireAbsentParameters identifier

/-- Identify a signature algorithm, refusing the weak and the unsupported. -/
def fromIdentifier (identifier : AlgorithmIdentifier) : Except VerifyError SignatureAlgorithm := do
  let algorithm ← ofOid identifier.oid
  checkParameters algorithm identifier
  .ok algorithm

/-- The `ring` verifier for this algorithm, given the key's curve. -/
def ringAlgorithm (algorithm : SignatureAlgorithm) (curve : Option Curve) :
    VerificationAlgorithm :=
  match algorithm, curve with
  | .rsaPkcs1Sha256, _ => .rsaPkcs1Sha256
  | .rsaPkcs1Sha384, _ => .rsaPkcs1Sha384
  | .rsaPkcs1Sha512, _ => .rsaPkcs1Sha512
  | .ecdsaSha256, some .p256 => .ecdsaP256Sha256Asn1
  | .ecdsaSha256, some .p384 => .ecdsaP384Sha256Asn1
  | .ecdsaSha384, some .p256 => .ecdsaP256Sha384Asn1
  | .ecdsaSha384, some .p384 => .ecdsaP384Sha384Asn1
  | .ed25519, _ => .ed25519
  | .ecdsaSha256, none | .ecdsaSha384, none => .ed25519

/-- The key algorithm OID this signature algorithm requires. -/
def requiredKeyAlgorithm : SignatureAlgorithm → ObjectIdentifier
  | .rsaPkcs1Sha256 | .rsaPkcs1Sha384 | .rsaPkcs1Sha512 => Oid.rsaEncryption
  | .ecdsaSha256 | .ecdsaSha384 => Oid.ecPublicKey
  | .ed25519 => Oid.ed25519

end SignatureAlgorithm

/-- Check that a public key can be used with this signature algorithm, and return the key's
curve if it has one. -/
def checkKeyCompatibility (algorithm : SignatureAlgorithm) (key : SubjectPublicKeyInfo) :
    Except VerifyError (Option Curve) := do
  refuse (key.algorithm.oid ≠ algorithm.requiredKeyAlgorithm) (wrongKeyAlgorithm key)
  match algorithm with
  | .ecdsaSha256 | .ecdsaSha384 => some <$> namedCurve key
  | .ed25519 =>
      requireAbsentParameters key.algorithm
      .ok none
  | .rsaPkcs1Sha256 | .rsaPkcs1Sha384 | .rsaPkcs1Sha512 =>
      requireNullOrAbsentParameters key.algorithm
      .ok none

/-- Verify `signature` over `message`, under `key`, using `algorithm`. -/
def verifySignedData (ring : Ring) (algorithm : AlgorithmIdentifier) (key : SubjectPublicKeyInfo)
    (message signature : Bytes) : Except VerifyError Unit := do
  let algorithm ← SignatureAlgorithm.fromIdentifier algorithm
  let curve ← checkKeyCompatibility algorithm key
  refuse (ring.verify (algorithm.ringAlgorithm curve) key.key message signature = false)
    .badSignature

/-- Verify that `certificate` was signed by the key matching `issuerKey`. -/
def verifySignature (ring : Ring) (certificate : Certificate) (issuerKey : SubjectPublicKeyInfo) :
    Except VerifyError Unit :=
  verifySignedData ring certificate.signatureAlgorithm issuerKey certificate.tbsDer
    certificate.signature

/-! ### The TLS namespace -/

/-- A TLS `SignatureScheme` (RFC 8446 §4.2.3), as its wire value. -/
structure SignatureScheme where
  code : UInt16
  deriving Repr, DecidableEq

namespace SignatureScheme

def rsaPkcs1Sha256 : SignatureScheme := ⟨0x0401⟩
def rsaPkcs1Sha384 : SignatureScheme := ⟨0x0501⟩
def rsaPkcs1Sha512 : SignatureScheme := ⟨0x0601⟩
def ecdsaSecp256r1Sha256 : SignatureScheme := ⟨0x0403⟩
def ecdsaSecp384r1Sha384 : SignatureScheme := ⟨0x0503⟩
def rsaPssRsaeSha256 : SignatureScheme := ⟨0x0804⟩
def rsaPssRsaeSha384 : SignatureScheme := ⟨0x0805⟩
def rsaPssRsaeSha512 : SignatureScheme := ⟨0x0806⟩
def ed25519 : SignatureScheme := ⟨0x0807⟩
def rsaPkcs1Sha1 : SignatureScheme := ⟨0x0201⟩
def ecdsaSha1 : SignatureScheme := ⟨0x0203⟩

/-- The schemes a TLS 1.3 handshake signature is verified with, in the order a client
offers them. -/
def tls13Supported : List SignatureScheme :=
  [ecdsaSecp256r1Sha256, ecdsaSecp384r1Sha384, ed25519, rsaPssRsaeSha256, rsaPssRsaeSha384,
    rsaPssRsaeSha512]

/-- The key type a scheme needs, or the reason it is refused. -/
def requiredKey (scheme : SignatureScheme) : Except VerifyError ObjectIdentifier :=
  -- Weak first, so that a SHA-1 scheme is never reported as merely unsupported.
  if scheme = rsaPkcs1Sha1 then .error (.weakSignatureAlgorithm "rsa_pkcs1_sha1")
  else if scheme = ecdsaSha1 then .error (.weakSignatureAlgorithm "ecdsa_sha1")
  else if scheme ∈ [rsaPkcs1Sha256, rsaPkcs1Sha384, rsaPkcs1Sha512] then
    .error .certificateOnlyScheme
  else if scheme ∈ [rsaPssRsaeSha256, rsaPssRsaeSha384, rsaPssRsaeSha512] then
    .ok Oid.rsaEncryption
  else if scheme ∈ [ecdsaSecp256r1Sha256, ecdsaSecp384r1Sha384] then .ok Oid.ecPublicKey
  else if scheme = ed25519 then .ok Oid.ed25519
  else .error .unsupportedSignatureAlgorithm

/-- Resolve a scheme for use in a TLS 1.3 handshake signature, given the key it will be
checked against. -/
def tls13Algorithm (scheme : SignatureScheme) (key : SubjectPublicKeyInfo) :
    Except VerifyError VerificationAlgorithm := do
  let requiredKey ← scheme.requiredKey
  refuse (key.algorithm.oid ≠ requiredKey) (wrongKeyAlgorithm key)
  if scheme ∈ [rsaPssRsaeSha256, rsaPssRsaeSha384, rsaPssRsaeSha512] then
    requireNullOrAbsentParameters key.algorithm
    if scheme = rsaPssRsaeSha256 then .ok .rsaPssSha256
    else if scheme = rsaPssRsaeSha384 then .ok .rsaPssSha384
    else .ok .rsaPssSha512
  else if scheme = ed25519 then
    requireAbsentParameters key.algorithm
    .ok .ed25519
  else
    -- The scheme names the curve, so the key has to be on it.
    let curve ← namedCurve key
    match decide (scheme = ecdsaSecp256r1Sha256), curve with
    | true, .p256 => .ok .ecdsaP256Sha256Asn1
    | false, .p384 => .ok .ecdsaP384Sha384Asn1
    | _, _ => .error .curveMismatch

end SignatureScheme

/-- Verify a TLS 1.3 handshake signature: a CertificateVerify. -/
def verifyTls13Signature (ring : Ring) (scheme : SignatureScheme) (key : SubjectPublicKeyInfo)
    (message signature : Bytes) : Except VerifyError Unit := do
  let algorithm ← scheme.tls13Algorithm key
  refuse (ring.verify algorithm key.key message signature = false) .badSignature

end RustyTls
