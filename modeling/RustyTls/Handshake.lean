import RustyTls.Core.Consume
import RustyTls.Schedule
import RustyTls.Wire

/-!
# RustyTls.Handshake

Handshake messages (`handrolled/handshake.rs`): framing, the messages' codecs, the
`pre_shared_key` extension with its two-phase encoding, and the transcript.

Nothing here decides anything; it parses and it writes. A message keeps the bytes it arrived
as, because those and not a re-encoding are what the transcript hashes.
-/

namespace RustyTls

open Core

/-- Everything handshake parsing can refuse. -/
inductive HandshakeError
  | wire (error : WireError)
  | lengthMismatch (declared available : Nat)
  | unexpectedMessage (typ : UInt8)
  | missingSignatureAlgorithms
  | unexpectedLegacyVersion (version : UInt16)
  | unexpectedCompression
  | duplicateExtension (id : UInt16)
  | empty (what : String)
  | pskOffer (why : String)
  deriving Repr, DecidableEq

/-- A wire error, as a handshake error. -/
def wire {α : Type} (x : Except WireError α) : Except HandshakeError α := mapErr .wire x

/-- `legacy_version`, pinned at TLS 1.2 for every version since. -/
def legacyVersion : UInt16 := 0x0303

/-! ### Framing -/

inductive HandshakeType
  | clientHello
  | serverHello
  | newSessionTicket
  | encryptedExtensions
  | certificate
  | certificateRequest
  | certificateVerify
  | finished
  | keyUpdate
  | unknown (value : UInt8)
  deriving Repr, DecidableEq

namespace HandshakeType

def asU8 : HandshakeType → UInt8
  | .clientHello => 1
  | .serverHello => 2
  | .newSessionTicket => 4
  | .encryptedExtensions => 8
  | .certificate => 11
  | .certificateRequest => 13
  | .certificateVerify => 15
  | .finished => 20
  | .keyUpdate => 24
  | .unknown other => other

def fromU8 (value : UInt8) : HandshakeType :=
  if value = 1 then .clientHello
  else if value = 2 then .serverHello
  else if value = 4 then .newSessionTicket
  else if value = 8 then .encryptedExtensions
  else if value = 11 then .certificate
  else if value = 13 then .certificateRequest
  else if value = 15 then .certificateVerify
  else if value = 20 then .finished
  else if value = 24 then .keyUpdate
  else .unknown value

end HandshakeType

/-- One handshake message: its type, its body, and the whole of it as it was encoded. -/
structure Message where
  typ : HandshakeType
  body : Bytes
  encoded : Bytes
  deriving Repr, DecidableEq

/-- Encode a message: type, three-octet length, body. -/
def Message.encode (typ : HandshakeType) (body : Bytes) : Bytes :=
  ((Writer.new.u8 typ.asU8).vectorU24 (.bytes body)).intoVec

/-- One round of `messages`: the message at the head of `rest`. -/
def nextMessage (out : List Message) (rest : Bytes) :
    Except HandshakeError (List Message × Bytes) := do
  let (typ, reader) ← wire (Reader.mk rest).u8
  let (declared, _) ← wire reader.u24
  let total := declared + 4
  refuse (rest.length < total) (.lengthMismatch declared (rest.length - 4))
  .ok (out ++ [⟨.fromU8 typ, (rest.take total).drop 4, rest.take total⟩], rest.drop total)

/-- Split a run of whole messages. -/
def messages (input : Bytes) : Except HandshakeError (List Message) := consume nextMessage [] input

/-- The length of the message at the head of `input`, if all of it is there. -/
def completeHead (input : Bytes) : Option Nat :=
  if 4 ≤ input.length then
    let total := beNat ((input.drop 1).take 3) + 4
    if input.length < total then none else some total
  else
    none

/-- The loop of `complete_prefix`; every round takes at least four octets. -/
def completePrefixLoop : Nat → Bytes → Nat
  | 0, _ => 0
  | fuel + 1, input =>
      match completeHead input with
      | none => 0
      | some total => total + completePrefixLoop fuel (input.drop total)

/-- How much of `input` is whole messages. -/
def completePrefix (input : Bytes) : Nat := completePrefixLoop input.length input

/-! ### Handling what has arrived -/

section Drain

variable {ε σ : Type}

/-- Hand messages to a handler one after the other, collecting its replies. -/
def handleAll (handle : σ → Message → Except ε (Bytes × σ)) :
    σ → List Message → Except ε (Bytes × σ)
  | s, [] => .ok ([], s)
  | s, message :: rest => do
      let (reply, s) ← handle s message
      let (replies, s) ← handleAll handle s rest
      .ok (reply ++ replies, s)

/-- The loop that both halves run over their reassembly buffer: as long as it starts with a
whole message, take every whole message off it and handle them. -/
def drainLoop (fromHandshake : HandshakeError → ε) (handle : σ → Message → Except ε (Bytes × σ)) :
    Nat → σ → Bytes → Except ε (Bytes × σ × Bytes)
  | 0, s, buffer => .ok ([], s, buffer)
  | fuel + 1, s, buffer =>
      let complete := completePrefix buffer
      if complete = 0 then
        .ok ([], s, buffer)
      else do
        let ms ← mapErr fromHandshake (messages (buffer.take complete))
        let (reply, s) ← handleAll handle s ms
        let (replies, s, buffer) ← drainLoop fromHandshake handle fuel s (buffer.drop complete)
        .ok (reply ++ replies, s, buffer)

/-- Drain a buffer. Each round takes at least one octet. -/
def drain (fromHandshake : HandshakeError → ε) (handle : σ → Message → Except ε (Bytes × σ))
    (s : σ) (buffer : Bytes) : Except ε (Bytes × σ × Bytes) :=
  drainLoop fromHandshake handle buffer.length s buffer

end Drain

/-! ### Extensions -/

/-- One extension: its type and its uninterpreted data. -/
structure Extension where
  typ : UInt16
  data : Bytes
  deriving Repr, DecidableEq

namespace ExtensionType

def serverName : UInt16 := 0
def supportedGroups : UInt16 := 10
def signatureAlgorithms : UInt16 := 13
def preSharedKey : UInt16 := 41
def earlyData : UInt16 := 42
def supportedVersions : UInt16 := 43
def pskKeyExchangeModes : UInt16 := 45
def keyShare : UInt16 := 51

end ExtensionType

/-- One round of `parse_extensions`. -/
def nextExtension (out : List Extension) (rest : Bytes) :
    Except HandshakeError (List Extension × Bytes) := do
  let (typ, block) ← wire (Reader.mk rest).u16
  let (data, block) ← wire block.vectorU16
  refuse (out.any (·.typ == typ) = true) (.duplicateExtension typ)
  .ok (out ++ [⟨typ, data⟩], block.rest)

def parseExtensions (reader : Reader) : Except HandshakeError (List Extension × Reader) := do
  let (block, reader) ← wire reader.vectorU16
  let extensions ← consume nextExtension [] block
  .ok (extensions, reader)

def writeExtensions (extensions : List Extension) : Writer → Writer :=
  Writer.vectorU16 (Writer.each extensions fun extension w =>
    (w.u16 extension.typ).vectorU16 (.bytes extension.data))

/-- The data of the extension of a type, if it is present. -/
def find (extensions : List Extension) (typ : UInt16) : Option Bytes :=
  (extensions.find? (·.typ == typ)).map (·.data)

/-- One round of a loop that reads `uint16`s to the end. -/
def nextU16 (out : List UInt16) (rest : Bytes) : Except HandshakeError (List UInt16 × Bytes) := do
  let (value, reader) ← wire (Reader.mk rest).u16
  .ok (out ++ [value], reader.rest)

/-- Every `uint16` of a list. -/
def u16List (list : Bytes) : Except HandshakeError (List UInt16) := consume nextU16 [] list

/-! ### ClientHello -/

structure ClientHello where
  random : Bytes
  sessionId : Bytes
  cipherSuites : List UInt16
  extensions : List Extension
  deriving Repr, DecidableEq

namespace ClientHello

def parse (body : Bytes) : Except HandshakeError ClientHello := do
  let (version, reader) ← wire (Reader.mk body).u16
  refuse (version ≠ legacyVersion) (.unexpectedLegacyVersion version)
  let (random, reader) ← wire (reader.take 32)
  let (sessionId, reader) ← wire reader.vectorU8
  let (suites, reader) ← wire reader.vectorU16
  let cipherSuites ← u16List suites
  refuse (cipherSuites = []) (.empty "cipher_suites")
  let (compression, reader) ← wire reader.vectorU8
  refuse (compression ≠ [0]) .unexpectedCompression
  let (extensions, reader) ← parseExtensions reader
  wire reader.finish
  .ok { random, sessionId, cipherSuites, extensions }

def encode (hello : ClientHello) : Bytes :=
  let w := (Writer.new.u16 legacyVersion).bytes hello.random
  let w := w.vectorU8 (.bytes hello.sessionId)
  let w := w.vectorU16 (.each hello.cipherSuites .u16)
  let w := w.vectorU8 (.u8 0)
  (writeExtensions hello.extensions w).intoVec

end ClientHello

/-! ### pre_shared_key -/

structure PskIdentity where
  identity : Bytes
  obfuscatedTicketAge : UInt32
  deriving Repr, DecidableEq

/-- A client's `pre_shared_key` extension. -/
structure PresharedKeyOffer where
  identities : List PskIdentity
  binders : List Bytes
  deriving Repr, DecidableEq

/-- The length of a binder list with binders of the given lengths, its own prefix included. -/
def binderBlockLen (lens : List Nat) : Nat := 2 + (lens.map (1 + ·)).sum

/-- Write a binder list. -/
def writeBinders (binders : List Bytes) : Writer → Writer :=
  Writer.vectorU16 (Writer.each binders fun binder => Writer.vectorU8 (.bytes binder))

namespace PresharedKeyOffer

/-- One round of the loop over the identities. -/
def nextIdentity (out : List PskIdentity) (rest : Bytes) :
    Except HandshakeError (List PskIdentity × Bytes) := do
  let (identity, list) ← wire (Reader.mk rest).vectorU16
  let (obfuscatedTicketAge, list) ← wire list.u32
  refuse (identity = []) (.pskOffer "an identity is empty")
  .ok (out ++ [{ identity, obfuscatedTicketAge }], list.rest)

/-- One round of the loop over the binders. -/
def nextBinder (out : List Bytes) (rest : Bytes) : Except HandshakeError (List Bytes × Bytes) := do
  let (binder, list) ← wire (Reader.mk rest).vectorU8
  refuse (binder.length < 32) (.pskOffer "a binder is shorter than 32 octets")
  .ok (out ++ [binder], list.rest)

def parse (data : Bytes) : Except HandshakeError PresharedKeyOffer := do
  let (list, reader) ← wire (Reader.mk data).vectorU16
  let identities ← consume nextIdentity [] list
  let (list, reader) ← wire reader.vectorU16
  let binders ← consume nextBinder [] list
  wire reader.finish
  refuse (identities = []) (.pskOffer "no identities")
  refuse (identities.length ≠ binders.length)
    (.pskOffer "the binder count does not match the identity count")
  .ok { identities, binders }

/-- The part of an encoded ClientHello that the binders cover: everything before them. -/
def truncated (offer : PresharedKeyOffer) (encodedMessage : Bytes) :
    Except HandshakeError Bytes := do
  let block := binderBlockLen (offer.binders.map (·.length))
  refuse (encodedMessage.length < block) (.pskOffer "the message is shorter than its binders")
  let start := encodedMessage.length - block
  let expected := (writeBinders offer.binders Writer.new).intoVec
  refuse (encodedMessage.drop start ≠ expected)
    (.pskOffer "pre_shared_key is not the last extension")
  .ok (encodedMessage.take start)

end PresharedKeyOffer

/-- An offer with zeroed binders of the lengths the real ones will have. -/
def preSharedKeyPlaceholder (identities : List PskIdentity) (binderLens : List Nat) : Bytes :=
  let w := Writer.new.vectorU16 (.each identities fun identity w =>
    (w.vectorU16 (.bytes identity.identity)).u32 identity.obfuscatedTicketAge)
  (writeBinders (binderLens.map (List.replicate · 0)) w).intoVec

/-- A ClientHello encoded with placeholder binders, awaiting the real ones. -/
structure BinderHello where
  encoded : Bytes
  truncatedLen : Nat
  binderLens : List Nat
  deriving Repr, DecidableEq

namespace BinderHello

def new (hello : ClientHello) (binderLens : List Nat) : Except HandshakeError BinderHello := do
  refuse (binderLens = []) (.pskOffer "no binders")
  refuse ((hello.extensions.getLast?.map (·.typ)) ≠ some ExtensionType.preSharedKey)
    (.pskOffer "pre_shared_key is not the last extension")
  let encoded := Message.encode .clientHello hello.encode
  let block := binderBlockLen binderLens
  refuse (encoded.length < block) (.pskOffer "the message is shorter than its binders")
  let truncatedLen := encoded.length - block
  let expected := (writeBinders (binderLens.map (List.replicate · 0)) Writer.new).intoVec
  refuse (encoded.drop truncatedLen ≠ expected)
    (.pskOffer "the binder placeholders are not at the end of the hello")
  .ok { encoded, truncatedLen, binderLens }

/-- The prefix the binders are computed over. -/
def truncated (hello : BinderHello) : Bytes := hello.encoded.take hello.truncatedLen

/-- Overwrite the placeholders: each binder goes one octet after the end of the previous one. -/
def splice : Bytes → Nat → List Bytes → Bytes
  | encoded, _, [] => encoded
  | encoded, start, binder :: rest =>
      splice (Writer.overwrite encoded (start + 1) binder) (start + 1 + binder.length) rest

/-- Fill in the binders. -/
def finish (hello : BinderHello) (binders : List Bytes) : Except HandshakeError Bytes := do
  refuse (binders.map (·.length) ≠ hello.binderLens)
    (.pskOffer "the binders do not match the placeholders they replace")
  .ok (splice hello.encoded (hello.truncatedLen + 2) binders)

end BinderHello

/-! ### ServerHello -/

/-- The random that marks a ServerHello as a HelloRetryRequest. -/
def helloRetryRequestRandom : Bytes :=
  [0xcf, 0x21, 0xad, 0x74, 0xe5, 0x9a, 0x61, 0x11, 0xbe, 0x1d, 0x8c, 0x02, 0x1e, 0x65, 0xb8, 0x91,
    0xc2, 0xa2, 0x11, 0x16, 0x7a, 0xbb, 0x8c, 0x5e, 0x07, 0x9e, 0x09, 0xe2, 0xc8, 0xa8, 0x33, 0x9c]

structure ServerHello where
  random : Bytes
  sessionId : Bytes
  cipherSuite : UInt16
  extensions : List Extension
  deriving Repr, DecidableEq

namespace ServerHello

def parse (body : Bytes) : Except HandshakeError ServerHello := do
  let (version, reader) ← wire (Reader.mk body).u16
  refuse (version ≠ legacyVersion) (.unexpectedLegacyVersion version)
  let (random, reader) ← wire (reader.take 32)
  let (sessionId, reader) ← wire reader.vectorU8
  let (cipherSuite, reader) ← wire reader.u16
  let (compression, reader) ← wire reader.u8
  refuse (compression ≠ 0) .unexpectedCompression
  let (extensions, reader) ← parseExtensions reader
  wire reader.finish
  .ok { random, sessionId, cipherSuite, extensions }

def isHelloRetryRequest (hello : ServerHello) : Bool := hello.random == helloRetryRequestRandom

def encode (hello : ServerHello) : Bytes :=
  let w := (Writer.new.u16 legacyVersion).bytes hello.random
  let w := w.vectorU8 (.bytes hello.sessionId)
  let w := (w.u16 hello.cipherSuite).u8 0
  (writeExtensions hello.extensions w).intoVec

end ServerHello

/-! ### The encrypted flight -/

def parseEncryptedExtensions (body : Bytes) : Except HandshakeError (List Extension) := do
  let (extensions, reader) ← parseExtensions (Reader.mk body)
  wire reader.finish
  .ok extensions

structure CertificateRequestMessage where
  context : Bytes
  schemes : List UInt16
  deriving Repr, DecidableEq

def CertificateRequestMessage.parse (body : Bytes) :
    Except HandshakeError CertificateRequestMessage := do
  let (context, reader) ← wire (Reader.mk body).vectorU8
  let (extensions, reader) ← parseExtensions reader
  wire reader.finish
  let offered ← okOr (find extensions ExtensionType.signatureAlgorithms)
    HandshakeError.missingSignatureAlgorithms
  let (list, reader) ← wire (Reader.mk offered).vectorU16
  wire reader.finish
  let schemes ← u16List list
  .ok { context, schemes }

structure CertificateEntry where
  certificate : Bytes
  extensions : Bytes
  deriving Repr, DecidableEq

structure CertificateMessage where
  context : Bytes
  entries : List CertificateEntry
  deriving Repr, DecidableEq

namespace CertificateMessage

/-- One round of the loop over the entries. -/
def nextEntry (out : List CertificateEntry) (rest : Bytes) :
    Except HandshakeError (List CertificateEntry × Bytes) := do
  let (certificate, list) ← wire (Reader.mk rest).vectorU24
  let (extensions, list) ← wire list.vectorU16
  .ok (out ++ [{ certificate, extensions }], list.rest)

def parse (body : Bytes) : Except HandshakeError CertificateMessage := do
  let (context, reader) ← wire (Reader.mk body).vectorU8
  let (list, reader) ← wire reader.vectorU24
  let entries ← consume nextEntry [] list
  wire reader.finish
  .ok { context, entries }

def encode (message : CertificateMessage) : Bytes :=
  let w := Writer.new.vectorU8 (.bytes message.context)
  (w.vectorU24 (.each message.entries fun entry w =>
    (w.vectorU24 (.bytes entry.certificate)).vectorU16 (.bytes entry.extensions))).intoVec

end CertificateMessage

structure CertificateVerify where
  scheme : UInt16
  signature : Bytes
  deriving Repr, DecidableEq

namespace CertificateVerify

def parse (body : Bytes) : Except HandshakeError CertificateVerify := do
  let (scheme, reader) ← wire (Reader.mk body).u16
  let (signature, reader) ← wire reader.vectorU16
  wire reader.finish
  refuse (signature = []) (.empty "signature")
  .ok { scheme, signature }

def encode (verify : CertificateVerify) : Bytes :=
  ((Writer.new.u16 verify.scheme).vectorU16 (.bytes verify.signature)).intoVec

end CertificateVerify

/-- What a CertificateVerify signs: 64 spaces, a context string, a zero, a transcript hash. -/
def certificateVerifyContent (context : String) (transcriptHash : Bytes) : Bytes :=
  List.replicate 64 0x20 ++ ascii context ++ [0x00] ++ transcriptHash

def serverCertificateVerifyContext : String := "TLS 1.3, server CertificateVerify"

def clientCertificateVerifyContext : String := "TLS 1.3, client CertificateVerify"

def parseFinished (body : Bytes) : Except HandshakeError Bytes := do
  refuse (body = []) (.empty "verify_data")
  .ok body

/-! ### The transcript -/

/-- The messages so far, and the hash to take of them. -/
structure Transcript where
  hashAlg : Hash
  buffer : Bytes
  deriving Repr, DecidableEq

namespace Transcript

def new (hash : Hash) : Transcript := ⟨hash, []⟩

def add (transcript : Transcript) (encoded : Bytes) : Transcript :=
  { transcript with buffer := transcript.buffer ++ encoded }

def addMessage (transcript : Transcript) (message : Message) : Transcript :=
  transcript.add message.encoded

def hash (ring : Ring) (transcript : Transcript) : Bytes :=
  transcript.hashAlg.hash ring transcript.buffer

end Transcript

end RustyTls
