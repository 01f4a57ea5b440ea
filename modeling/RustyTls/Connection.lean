import RustyTls.Handshake
import RustyTls.Keys
import RustyTls.Path

/-!
# RustyTls.Connection

The established connection, and what the two handshakes share with it (from
`handrolled/client.rs`): alerts, the client's errors, plaintext record framing.

A `Connection` is built by either handshake. On the server's side "client" and "server" swap:
`clientSecret` is always the secret this end sends under. A call returns its result together
with the connection it leaves behind, because a call that fails has already moved the keys
it had reached.
-/

namespace RustyTls

open Core

/-! ### Alerts and errors -/

inductive AlertLevel
  | warning
  | fatal
  | unknown (value : UInt8)
  deriving Repr, DecidableEq

def AlertLevel.fromU8 (value : UInt8) : AlertLevel :=
  if value = 1 then .warning else if value = 2 then .fatal else .unknown value

structure AlertDescription where
  code : UInt8
  deriving Repr, DecidableEq

def AlertDescription.closeNotify : AlertDescription := ⟨0⟩

structure Alert where
  level : AlertLevel
  description : AlertDescription
  deriving Repr, DecidableEq

def Alert.parse : Bytes → Option Alert
  | [level, description] => some ⟨.fromU8 level, ⟨description⟩⟩
  | _ => none

/-- Everything a client connection can fail with. `panicked` is not an error of the source:
it is an `expect` that does not hold, which unwinds. -/
inductive ClientError
  | handshake (error : HandshakeError)
  | record (error : RecordError)
  | kx (error : KxError)
  | sign (error : SignError)
  | path (error : PathError)
  | verify (error : VerifyError)
  | unexpectedMessage (expected : String) (got : HandshakeType)
  | unexpectedContentType (typ : ContentType)
  | peerAlert (alert : Alert)
  | downgradeDetected
  | sessionIdMismatch
  | notTls13
  | unofferedCipherSuite (suite : UInt16)
  | badKeyShare
  | repeatedHelloRetryRequest
  | unofferedGroup (group : UInt16)
  | badFinished
  | noCertificates
  | malformedCertificate (error : X509Error)
  | failed
  | random
  | unofferedPsk
  | badPskIdentity (index : UInt16)
  | pskHashMismatch
  | unusableSession
  | unexpectedEarlyData
  | panicked (expectation : String)
  deriving Repr, DecidableEq

/-- What an alert's contents report. -/
def ClientError.ofAlert (contents : Bytes) : ClientError :=
  match Alert.parse contents with
  | some alert => .peerAlert alert
  | none => .unexpectedContentType .alert

/-! ### Record framing -/

/-- The length of the record at the head of `input`, once its header is there. -/
def recordLength (input : Bytes) : Option Nat :=
  if headerLen ≤ input.length then some (headerLen + Opener.declaredLength input) else none

/-- Cut a stream into records, with `fuel` bounding their number. -/
def recordsFuel : Nat → Bytes → List Bytes
  | 0, _ => []
  | fuel + 1, stream =>
      match recordLength stream with
      | some length =>
          if length ≤ stream.length then
            stream.take length :: recordsFuel fuel (stream.drop length)
          else
            []
      | none => []

/-- The whole records of a stream: what a transport makes of it with `record_length`. -/
def records (stream : Bytes) : List Bytes := recordsFuel stream.length stream

/-- A record in the clear. The length field is a cast, so it is taken modulo `2 ^ 16`. -/
def plaintextRecord (typ : ContentType) (version : UInt16) (fragment : Bytes) : Bytes :=
  [typ.asU8] ++ beBytes 2 version.toNat ++ beBytes 2 fragment.length ++ fragment

/-- The content type of a change_cipher_spec. -/
def changeCipherSpec : UInt8 := 20

/-! ### Sessions -/

/-- What a client keeps to resume with. -/
structure Session where
  ticket : Bytes
  lifetime : UInt32
  ageAdd : UInt32
  suite : CipherSuite
  peerCertificates : List Bytes
  psk : Bytes
  deriving Repr, DecidableEq

/-- What a record brought. -/
inductive Incoming
  | application (data : Bytes)
  | tickets (sessions : List Session)
  | handled
  | reply (record : Bytes)
  | closed
  deriving Repr, DecidableEq

/-- An established connection. -/
structure Connection where
  aead : Aead
  hash : Hash
  suite : CipherSuite
  sealer : Sealer
  opener : Opener
  clientSecret : Bytes
  serverSecret : Bytes
  certificates : List Bytes
  resumed : Bool
  resumptionMaster : Bytes
  deriving Repr, DecidableEq

namespace Connection

/-- The connection a server makes: it is never marked resumed and derives no resumption
secret, since it is the side that issues tickets. -/
def fromParts (aead : Aead) (hash : Hash) (suite : CipherSuite) (sealer : Sealer)
    (opener : Opener) (sendSecret receiveSecret : Bytes) (certificates : List Bytes) :
    Connection where
  aead := aead
  hash := hash
  suite := suite
  sealer := sealer
  opener := opener
  clientSecret := sendSecret
  serverSecret := receiveSecret
  certificates := certificates
  resumed := false
  resumptionMaster := []

def cipherSuite (connection : Connection) : CipherSuite := connection.suite

def peerCertificates (connection : Connection) : List Bytes := connection.certificates

/-- Seal application data. -/
def write (ring : Ring) (connection : Connection) (data : Bytes) :
    Except ClientError Bytes × Connection :=
  let (result, sealer) := connection.sealer.sealRecord ring .applicationData data 0
  (mapErr .record result, { connection with sealer })

/-- The session a NewSessionTicket gives. -/
def sessionFrom (ring : Ring) (connection : Connection) (body : Bytes) :
    Except HandshakeError Session := do
  let (lifetime, reader) ← wire (Reader.mk body).u32
  let (ageAdd, reader) ← wire reader.u32
  let (nonce, reader) ← wire reader.vectorU8
  let (ticket, reader) ← wire reader.vectorU16
  let (_, reader) ← wire reader.vectorU16
  wire reader.finish
  refuse (ticket = []) (.empty "a NewSessionTicket's ticket")
  let psk := expandLabel ring connection.hash connection.resumptionMaster "resumption" nonce
    connection.hash.len
  .ok { ticket, lifetime, ageAdd, psk, suite := connection.suite,
        peerCertificates := connection.certificates }

/-- Move the receiving direction to its next key. -/
def rekeyReceiving (ring : Ring) (connection : Connection) :
    Except ClientError Unit × Connection :=
  let secret := updateTrafficSecret ring connection.hash connection.serverSecret
  let keys := trafficKeys ring connection.hash secret connection.aead.keyLen
  let connection := { connection with serverSecret := secret }
  match Opener.new connection.aead keys.key keys.iv with
  | .ok opener => (.ok (), { connection with opener })
  | .error err => (.error (.record err), connection)

/-- Answer a requested update under the key the peer still has, then move the sending
direction to its next key. -/
def rekeySending (ring : Ring) (connection : Connection) :
    Except ClientError Bytes × Connection :=
  match connection.sealer.sealRecord ring .handshake (Message.encode .keyUpdate [0x00]) 0 with
  | (.error err, sealer) => (.error (.record err), { connection with sealer })
  | (.ok record, sealer) =>
      let secret := updateTrafficSecret ring connection.hash connection.clientSecret
      let keys := trafficKeys ring connection.hash secret connection.aead.keyLen
      match Sealer.new connection.aead keys.key keys.iv with
      | .ok sealer => (.ok record, { connection with clientSecret := secret, sealer })
      | .error err => (.error (.record err), { connection with clientSecret := secret, sealer })

/-- A KeyUpdate. -/
def keyUpdate (ring : Ring) (connection : Connection) (body : Bytes) :
    Except ClientError Bytes × Connection :=
  match connection.rekeyReceiving ring with
  | (.error err, connection) => (.error err, connection)
  | (.ok (), connection) =>
      if body = [0x01] then connection.rekeySending ring else (.ok [], connection)

/-- One post-handshake message: the reply it needs and the session it gives. -/
def postHandshakeMessage (ring : Ring) (connection : Connection) (message : Message) :
    Except ClientError (Bytes × List Session) × Connection :=
  match message.typ with
  | .newSessionTicket =>
      -- A connection with no resumption secret derives no session.
      if connection.resumptionMaster = [] then
        (.ok ([], []), connection)
      else
        match connection.sessionFrom ring message.body with
        | .ok session => (.ok ([], [session]), connection)
        | .error err => (.error (.handshake err), connection)
  | .keyUpdate =>
      match connection.keyUpdate ring message.body with
      | (.ok reply, connection) => (.ok (reply, []), connection)
      | (.error err, connection) => (.error err, connection)
  | other => (.error (.unexpectedMessage "a post-handshake message" other), connection)

/-- The messages of a fragment one after the other. -/
def postHandshakeLoop (ring : Ring) :
    Connection → List Message → Except ClientError (Bytes × List Session) × Connection
  | connection, [] => (.ok ([], []), connection)
  | connection, message :: rest =>
      match connection.postHandshakeMessage ring message with
      | (.error err, connection) => (.error err, connection)
      | (.ok (reply, sessions), connection) =>
          match postHandshakeLoop ring connection rest with
          | (.error err, connection) => (.error err, connection)
          | (.ok (replies, more), connection) =>
              (.ok (reply ++ replies, sessions ++ more), connection)

/-- What a fragment of post-handshake messages comes to. -/
def postHandshakeResult (reply : Bytes) (sessions : List Session) : Except ClientError Incoming :=
  if sessions ≠ [] then
    if reply ≠ [] then
      .error (.unexpectedMessage "NewSessionTickets alone" .keyUpdate)
    else
      .ok (.tickets sessions)
  else if reply = [] then
    .ok .handled
  else
    .ok (.reply reply)

/-- Handle a fragment of post-handshake messages. What follows its last whole message is
dropped. -/
def postHandshake (ring : Ring) (connection : Connection) (fragment : Bytes) :
    Except ClientError Incoming × Connection :=
  match messages (fragment.take (completePrefix fragment)) with
  | .error err => (.error (.handshake err), connection)
  | .ok ms =>
      match postHandshakeLoop ring connection ms with
      | (.error err, connection) => (.error err, connection)
      | (.ok (reply, sessions), connection) => (postHandshakeResult reply sessions, connection)

/-- What an opened record brings. -/
def incoming (ring : Ring) (connection : Connection) (opened : Opened) :
    Except ClientError Incoming × Connection :=
  match opened.typ with
  | .applicationData => (.ok (.application opened.fragment), connection)
  | .handshake => connection.postHandshake ring opened.fragment
  | .alert =>
      if (Alert.parse opened.fragment).map (·.description) = some .closeNotify then
        (.ok .closed, connection)
      else
        (.error (.ofAlert opened.fragment), connection)
  | other => (.error (.unexpectedContentType other), connection)

/-- Read one record. -/
def read (ring : Ring) (connection : Connection) (record : Bytes) :
    Except ClientError Incoming × Connection :=
  if record.head? = some changeCipherSpec then
    (.ok .handled, connection)
  else
    match connection.opener.openRecord ring record with
    | (.error err, opener) => (.error (.record err), { connection with opener })
    | (.ok opened, opener) => { connection with opener }.incoming ring opened

end Connection

end RustyTls
