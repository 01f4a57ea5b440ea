import RustyTls.Ring
import RustyTls.Core.Result

/-!
# RustyTls.Record

The TLS 1.3 record layer (`handrolled/record.rs`): one sealing and one opening half per
direction, each a key, an IV and a counter.

Both halves change their state in one place only, the counter's `advance` at the end of a
call that succeeded. `Sealer.sealing` and `Opener.opening` compute a call's result without
touching anything; `Sealer.sealRecord` and `Opener.openRecord` return it together with the half that is
left behind, on success and on failure alike.
-/

namespace RustyTls

open Core

/-- Length of the record header. -/
def headerLen : Nat := 5

/-- Length of a nonce, and so of an IV. -/
def nonceLen : Nat := 12

/-- Length of an authentication tag. -/
def tagLen : Nat := 16

/-- Longest plaintext fragment a record carries. -/
def maxFragmentLen : Nat := 2 ^ 14

/-- Longest `encrypted_record`. -/
def maxEncryptedFragmentLen : Nat := maxFragmentLen + 256

/-- Longest inner plaintext: an `encrypted_record` less its tag. -/
def maxInnerPlaintextLen : Nat := maxEncryptedFragmentLen - tagLen

/-- The limits as numerals, for arithmetic. -/
theorem limits : maxFragmentLen = 16384 ∧ maxEncryptedFragmentLen = 16640 ∧
    maxInnerPlaintextLen = 16624 ∧ tagLen = 16 ∧ headerLen = 5 := by decide

/-- The outer content type of every protected record. -/
def outerType : UInt8 := 23

/-- The AEAD algorithms of the TLS 1.3 cipher suites. -/
inductive Aead
  | aes128Gcm
  | aes256Gcm
  | chacha20Poly1305
  deriving Repr, DecidableEq

def Aead.keyLen : Aead → Nat
  | .aes128Gcm => 16
  | .aes256Gcm | .chacha20Poly1305 => 32

def Aead.ringAlgorithm : Aead → AeadAlgorithm
  | .aes128Gcm => .aes128Gcm
  | .aes256Gcm => .aes256Gcm
  | .chacha20Poly1305 => .chacha20Poly1305

/-- A TLS content type. -/
inductive ContentType
  | changeCipherSpec
  | alert
  | handshake
  | applicationData
  | unknown (value : UInt8)
  deriving Repr, DecidableEq

def ContentType.asU8 : ContentType → UInt8
  | .changeCipherSpec => 20
  | .alert => 21
  | .handshake => 22
  | .applicationData => 23
  | .unknown other => other

def ContentType.fromU8 (value : UInt8) : ContentType :=
  if value = 20 then .changeCipherSpec
  else if value = 21 then .alert
  else if value = 22 then .handshake
  else if value = 23 then .applicationData
  else .unknown value

@[simp] theorem ContentType.asU8_fromU8 (value : UInt8) :
    (ContentType.fromU8 value).asU8 = value := by
  unfold ContentType.fromU8
  split
  · next h => exact h.symm
  split
  · next h => exact h.symm
  split
  · next h => exact h.symm
  split
  · next h => exact h.symm
  · rfl

/-- Everything the record layer can refuse. -/
inductive RecordError
  | keyLength (expected actual : Nat)
  | ivLength (actual : Nat)
  | fragmentTooLong (len max : Nat)
  | truncated (len min : Nat)
  | lengthMismatch (declared available : Nat)
  | encryptedFragmentTooLong (len : Nat)
  | unexpectedOuterType (typ : UInt8)
  | decrypt
  | encrypt
  | noContentType
  | sequenceExhausted
  deriving Repr, DecidableEq

/-! ### Keys and counters -/

/-- One direction's key and IV, of the lengths its algorithm needs. -/
structure DirectionKey where
  alg : Aead
  key : Bytes
  iv : Bytes
  key_length : key.length = alg.keyLen
  iv_length : iv.length = nonceLen
  deriving Repr, DecidableEq

namespace DirectionKey

def new (alg : Aead) (key iv : Bytes) : Except RecordError DirectionKey :=
  if hkey : key.length = alg.keyLen then
    if hiv : iv.length = nonceLen then
      .ok ⟨alg, key, iv, hkey, hiv⟩
    else
      .error (.ivLength iv.length)
  else
    .error (.keyLength alg.keyLen key.length)

/-- The nonce of the record numbered `seq`: the IV with the number, big-endian, xored into its
last eight octets. -/
def nonce (key : DirectionKey) (seq : UInt64) : Bytes :=
  key.iv.take (nonceLen - 8) ++
    List.zipWith (· ^^^ ·) (key.iv.drop (nonceLen - 8)) (beBytes 8 seq.toNat)

end DirectionKey

/-- The header of a protected record, which is also its additional data. -/
def additionalData (encryptedLen : Nat) : Bytes :=
  [outerType, 0x03, 0x03] ++ beBytes 2 encryptedLen

/-- A record counter: the next number, or nothing once the last has been used. -/
structure Sequence where
  next : Option UInt64
  deriving Repr, DecidableEq

namespace Sequence

def startingAt (seq : UInt64) : Sequence := ⟨some seq⟩

def peek (seq : Sequence) : Except RecordError UInt64 := okOr seq.next .sequenceExhausted

/-- The counter after `used`; it refuses to wrap. -/
def advance (used : UInt64) : Sequence :=
  ⟨if used.toNat + 1 < 2 ^ 64 then some (used + 1) else none⟩

end Sequence

/-- Addition on `usize` that stops at the largest one. -/
def saturatingAdd (a b : Nat) : Nat := min (a + b) (2 ^ 64 - 1)

/-! ### Sealing -/

/-- The sending half of a direction. -/
structure Sealer where
  key : DirectionKey
  seq : Sequence
  deriving Repr, DecidableEq

namespace Sealer

def newAt (alg : Aead) (key iv : Bytes) (seq : UInt64) : Except RecordError Sealer := do
  let key ← DirectionKey.new alg key iv
  .ok ⟨key, .startingAt seq⟩

def new (alg : Aead) (key iv : Bytes) : Except RecordError Sealer := newAt alg key iv 0

/-- The inner plaintext of a record: content, type, and zeros. -/
def innerPlaintext (typ : ContentType) (fragment : Bytes) (padding : Nat) : Bytes :=
  fragment ++ [typ.asU8] ++ List.replicate padding 0

/-- The record a call seals and the number it uses. -/
def sealing (ring : Ring) (sealer : Sealer) (typ : ContentType) (fragment : Bytes)
    (padding : Nat) : Except RecordError (Bytes × UInt64) := do
  refuse (maxFragmentLen < fragment.length) (.fragmentTooLong fragment.length maxFragmentLen)
  let innerLen := saturatingAdd (saturatingAdd fragment.length 1) padding
  refuse (maxInnerPlaintextLen < innerLen) (.fragmentTooLong innerLen maxInnerPlaintextLen)
  let seq ← sealer.seq.peek
  let header := additionalData (innerLen + tagLen)
  let sealed ← okOr (ring.sealInPlace sealer.key.alg.ringAlgorithm sealer.key.key
    (sealer.key.nonce seq) header (innerPlaintext typ fragment padding)) RecordError.encrypt
  .ok (header ++ sealed, seq)

/-- Seal one record, and the sealer left behind. -/
def sealRecord (ring : Ring) (sealer : Sealer) (typ : ContentType) (fragment : Bytes)
    (padding : Nat) : Except RecordError Bytes × Sealer :=
  match sealer.sealing ring typ fragment padding with
  | .ok (record, seq) => (.ok record, { sealer with seq := .advance seq })
  | .error e => (.error e, sealer)

end Sealer

/-! ### Opening -/

/-- A record opened: its content type and content. -/
structure Opened where
  typ : ContentType
  fragment : Bytes
  deriving Repr, DecidableEq

/-- The receiving half of a direction. -/
structure Opener where
  key : DirectionKey
  seq : Sequence
  deriving Repr, DecidableEq

namespace Opener

def newAt (alg : Aead) (key iv : Bytes) (seq : UInt64) : Except RecordError Opener := do
  let key ← DirectionKey.new alg key iv
  .ok ⟨key, .startingAt seq⟩

def new (alg : Aead) (key iv : Bytes) : Except RecordError Opener := newAt alg key iv 0

/-- Scan back past the zero padding: the last non-zero octet is the content type, and what
precedes it is the content. -/
def innerContent (plaintext : Bytes) : Option (UInt8 × Bytes) :=
  match plaintext.reverse.dropWhile (· == 0) with
  | [] => none
  | typ :: content => some (typ, content.reverse)

/-- The length field of a record header. -/
def declaredLength (record : Bytes) : Nat := beNat ((record.drop 3).take 2)

/-- What a call opens and the number it uses. -/
def opening (ring : Ring) (opener : Opener) (record : Bytes) :
    Except RecordError (Opened × UInt64) := do
  refuse (record.length < headerLen) (.truncated record.length headerLen)
  refuse (record.headD 0 ≠ outerType) (.unexpectedOuterType (record.headD 0))
  let declared := declaredLength record
  let body := record.drop headerLen
  refuse (body.length ≠ declared) (.lengthMismatch declared body.length)
  refuse (maxEncryptedFragmentLen < declared) (.encryptedFragmentTooLong declared)
  refuse (declared < tagLen + 1) (.truncated declared (tagLen + 1))
  let seq ← opener.seq.peek
  let plaintext ← okOr (ring.openInPlace opener.key.alg.ringAlgorithm opener.key.key
    (opener.key.nonce seq) (additionalData declared) body) RecordError.decrypt
  let (typ, content) ← okOr (innerContent plaintext) RecordError.noContentType
  refuse (maxFragmentLen < content.length) (.fragmentTooLong content.length maxFragmentLen)
  .ok (⟨.fromU8 typ, content⟩, seq)

/-- Open one record, and the opener left behind. -/
def openRecord (ring : Ring) (opener : Opener) (record : Bytes) :
    Except RecordError Opened × Opener :=
  match opener.opening ring record with
  | .ok (opened, seq) => (.ok opened, { opener with seq := .advance seq })
  | .error e => (.error e, opener)

end Opener

end RustyTls
