import RustyTls.Core.Consume
import RustyTls.Keys
import RustyTls.Wire

/-!
# RustyTls.Ticket

Session tickets (`handrolled/ticket.rs`): what a server seals into one, the keys it seals
them under, and how old a ticket may be.

Times are 64-bit seconds. `is_current` subtracts them with the machine's subtraction, which
wraps, while `age_is_plausible` saturates; both are kept.
-/

namespace RustyTls

open Core

inductive TicketError
  | badKeyLength (len : Nat)
  | random
  | sealing
  | opening
  | malformed (why : String)
  deriving Repr, DecidableEq

/-- A wire error, as a ticket error: it does not say which. -/
def wireTicket {α : Type} (x : Except WireError α) : Except TicketError α :=
  mapErr (fun _ => .malformed "the sealed contents are not a ticket") x

/-! ### Keys -/

/-- The additional data every ticket is sealed with. -/
def ticketAad : Bytes := ascii "rusty_tls resumption ticket v1"

/-- The layout of a ticket's contents. -/
def ticketVersion : UInt8 := 2

/-- A key tickets are sealed under. -/
structure TicketKey where
  secret : Bytes
  secret_length : secret.length = 32
  deriving Repr, DecidableEq

namespace TicketKey

def new (secret : Bytes) : Except TicketError TicketKey :=
  if h : secret.length = 32 then .ok ⟨secret, h⟩ else .error (.badKeyLength secret.length)

/-- Seal a ticket under the nonce that is drawn for it. -/
def sealTicket (ring : Ring) (key : TicketKey) (drawn : Option Bytes) (plaintext : Bytes) :
    Except TicketError Bytes := do
  let nonce ← okOr drawn TicketError.random
  let out ← okOr (ring.sealInPlace .aes256Gcm key.secret nonce ticketAad plaintext)
    TicketError.sealing
  .ok (nonce ++ out)

def openTicket (ring : Ring) (key : TicketKey) (ticket : Bytes) : Except TicketError Bytes := do
  refuse (ticket.length < nonceLen) .opening
  okOr (ring.openInPlace .aes256Gcm key.secret (ticket.take nonceLen) ticketAad
    (ticket.drop nonceLen)) .opening

end TicketKey

/-- The key a server seals under, and those it still opens under. -/
structure TicketKeys where
  current : TicketKey
  previous : List TicketKey
  deriving Repr, DecidableEq

/-- The first key that opens a ticket decides. -/
def TicketKeys.openTicket (ring : Ring) (keys : TicketKeys) (ticket : Bytes) : Option Bytes :=
  (keys.current :: keys.previous).findSome? fun key => (key.openTicket ring ticket).toOption

/-! ### Contents -/

/-- What a ticket says, to the server that sealed it. -/
structure TicketContents where
  suite : CipherSuite
  issuedAt : Int64
  lifetime : UInt32
  ageAdd : UInt32
  identity : Bytes
  clientCertificates : List Bytes
  psk : Bytes
  deriving Repr, DecidableEq

namespace TicketContents

/-- What `identity_of` hashes: every certificate behind its length. -/
def identityInput (certificates : List Bytes) : Bytes :=
  certificates.flatMap fun certificate => beBytes 4 certificate.length ++ certificate

/-- A digest of a server's certificate chain. -/
def identityOf (ring : Ring) (certificates : List Bytes) : Bytes :=
  Hash.sha256.hash ring (identityInput certificates)

def encode (contents : TicketContents) : Bytes :=
  let w := (Writer.new.u8 ticketVersion).u16 contents.suite.code
  -- The two halves of a signed 64-bit time; both casts keep the bits.
  let w := w.u32 (contents.issuedAt >>> 32).toUInt64.toUInt32
  let w := w.u32 contents.issuedAt.toUInt64.toUInt32
  let w := (w.u32 contents.lifetime).u32 contents.ageAdd
  let w := w.vectorU8 (.bytes contents.identity)
  let w := w.vectorU16 (.each contents.clientCertificates fun certificate =>
    Writer.vectorU16 (.bytes certificate))
  (w.vectorU8 (.bytes contents.psk)).intoVec

/-- One round of the loop over the client's chain. -/
def nextCertificate (out : List Bytes) (rest : Bytes) :
    Except TicketError (List Bytes × Bytes) := do
  let (certificate, chain) ← wireTicket (Reader.mk rest).vectorU16
  .ok (out ++ [certificate], chain.rest)

/-- The fields after the version. -/
def decodeFields (reader : Reader) : Except TicketError TicketContents := do
  let (suite, reader) ← wireTicket reader.u16
  let (high, reader) ← wireTicket reader.u32
  let (low, reader) ← wireTicket reader.u32
  let issuedAt := (high.toUInt64.toInt64 <<< 32) ||| low.toUInt64.toInt64
  let (lifetime, reader) ← wireTicket reader.u32
  let (ageAdd, reader) ← wireTicket reader.u32
  let (identity, reader) ← wireTicket reader.vectorU8
  let (chain, reader) ← wireTicket reader.vectorU16
  let clientCertificates ← consume nextCertificate [] chain
  let (psk, reader) ← wireTicket reader.vectorU8
  wireTicket reader.finish
  refuse (psk = []) (.malformed "it carries no key")
  .ok { suite := ⟨suite⟩, issuedAt, lifetime, ageAdd, identity, clientCertificates, psk }

/-- Decode a ticket's contents; `none` is a layout of another version. -/
def decode (plaintext : Bytes) : Except TicketError (Option TicketContents) := do
  let (version, reader) ← wireTicket (Reader.mk plaintext).u8
  if version ≠ ticketVersion then
    .ok none
  else
    some <$> decodeFields reader

def sealContents (ring : Ring) (contents : TicketContents) (key : TicketKey)
    (drawn : Option Bytes) : Except TicketError Bytes :=
  key.sealTicket ring drawn contents.encode

/-- Open a ticket. `none` when it is not one of ours: no key opens it, or it is of another
version. -/
def openContents (ring : Ring) (ticket : Bytes) (keys : TicketKeys) :
    Option (Except TicketError TicketContents) :=
  match (keys.openTicket ring ticket).map decode with
  | some (.ok (some contents)) => some (.ok contents)
  | some (.ok none) | none => none
  | some (.error err) => some (.error err)

/-! ### Age -/

def reportedAgeMs (contents : TicketContents) (obfuscatedTicketAge : UInt32) : UInt32 :=
  obfuscatedTicketAge - contents.ageAdd

/-- `i64::saturating_sub`. -/
def saturatingSub (a b : Int64) : Int :=
  max (-(2 ^ 63)) (min (2 ^ 63 - 1) (a.toInt - b.toInt))

/-- The distance between two numbers. -/
def absDiff (a b : Nat) : Nat := max a b - min a b

/-- The age a client reports agrees with the server's own, within `skewMs`. -/
def ageIsPlausible (contents : TicketContents) (obfuscatedTicketAge : UInt32) (now : Int64)
    (skewMs : UInt32) : Bool :=
  let reported := contents.reportedAgeMs obfuscatedTicketAge
  let elapsed := (saturatingSub now contents.issuedAt).toNat
  let actual := min (2 ^ 32 - 1) (min (2 ^ 32 - 1) elapsed * 1000)
  absDiff actual reported.toNat ≤ skewMs.toNat

/-- The ticket has been issued and has not expired, by the machine's subtraction. -/
def isCurrent (contents : TicketContents) (now : Int64) : Bool :=
  let age := now - contents.issuedAt
  0 ≤ age && age ≤ contents.lifetime.toUInt64.toInt64

end TicketContents

end RustyTls
