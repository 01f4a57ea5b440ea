import RustyTls.Der

/-!
# RustyTls.X509

X.509 certificate parsing (`handrolled/x509.rs`).

Parsing answers what a certificate says and never whether to trust it. Encoded bytes are
kept wherever a later stage compares or hashes them: the `tbsCertificate`, the two names,
the whole key. The name and key-usage lists stay encoded too, and are walked by iterators
that yield one result per entry; `GeneralNames.next` and `ExtendedKeyUsage.next` are those
iterators' steps and `entries` is the list a `for` loop over one of them sees.
-/

namespace RustyTls

open Core Der

/-- Certificate version, as encoded. -/
inductive Version
  | v1
  | v2
  | v3
  deriving Repr, DecidableEq

/-- Everything certificate parsing can refuse. -/
inductive X509Error
  | der (error : DerError)
  | unsupportedVersion (version : Nat)
  | explicitDefaultVersion
  | extensionsBeforeV3 (version : Version)
  | uniqueIdentifierInV1
  | emptyExtensions
  | duplicateExtension
  | signatureAlgorithmMismatch
  | malformedTime
  | malformedKeyUsage
  | malformedBasicConstraints
  | malformedIpAddress (len : Nat)
  | nonAsciiName
  deriving Repr, DecidableEq

/-- An `AlgorithmIdentifier`: an OID plus whatever parameters it defines, encoded. -/
structure AlgorithmIdentifier where
  oid : ObjectIdentifier
  parameters : Option Bytes
  encoded : Bytes
  deriving Repr, DecidableEq

/-- A validity period, as seconds since the Unix epoch; both bounds are inclusive. -/
structure Validity where
  notBefore : Int
  notAfter : Int
  deriving Repr, DecidableEq

/-- A `SubjectPublicKeyInfo`. -/
structure SubjectPublicKeyInfo where
  algorithm : AlgorithmIdentifier
  key : Bytes
  encoded : Bytes
  deriving Repr, DecidableEq

/-- `basicConstraints` (RFC 5280 §4.2.1.9). -/
structure BasicConstraints where
  isCa : Bool
  pathLenConstraint : Option Nat
  deriving Repr, DecidableEq

/-- `keyUsage` (RFC 5280 §4.2.1.3), as a bit set: bit 0 is the most significant. -/
structure KeyUsage where
  bits : UInt16
  deriving Repr, DecidableEq

/-- Is the bit at `bit`, counted from the most significant, set? -/
def KeyUsage.has (usage : KeyUsage) (bit : UInt16) : Bool := usage.bits &&& (0x8000 >>> bit) != 0

/-- Bit 5: the key may sign certificates. -/
def KeyUsage.keyCertSign (usage : KeyUsage) : Bool := usage.has 5

/-- One `GeneralName` from a `subjectAltName` extension. -/
inductive GeneralName
  | rfc822Name (name : Bytes)
  | dnsName (name : Bytes)
  | uri (name : Bytes)
  | ipAddress (octets : Bytes)
  | other (tag : UInt8) (contents : Bytes)
  deriving Repr, DecidableEq

/-! ### Well-known OIDs -/

namespace Oid

def keyUsage : ObjectIdentifier := ⟨[0x55, 0x1d, 0x0f]⟩
def subjectAltName : ObjectIdentifier := ⟨[0x55, 0x1d, 0x11]⟩
def basicConstraints : ObjectIdentifier := ⟨[0x55, 0x1d, 0x13]⟩
def nameConstraints : ObjectIdentifier := ⟨[0x55, 0x1d, 0x1e]⟩
def extendedKeyUsage : ObjectIdentifier := ⟨[0x55, 0x1d, 0x25]⟩
def ekuAny : ObjectIdentifier := ⟨[0x55, 0x1d, 0x25, 0x00]⟩
def ekuServerAuth : ObjectIdentifier := ⟨[0x2b, 0x06, 0x01, 0x05, 0x05, 0x07, 0x03, 0x01]⟩
def ekuClientAuth : ObjectIdentifier := ⟨[0x2b, 0x06, 0x01, 0x05, 0x05, 0x07, 0x03, 0x02]⟩
def rsaEncryption : ObjectIdentifier :=
  ⟨[0x2a, 0x86, 0x48, 0x86, 0xf7, 0x0d, 0x01, 0x01, 0x01]⟩
def ecPublicKey : ObjectIdentifier := ⟨[0x2a, 0x86, 0x48, 0xce, 0x3d, 0x02, 0x01]⟩
def ed25519 : ObjectIdentifier := ⟨[0x2b, 0x65, 0x70]⟩

end Oid

/-! ### Iterators over encoded lists -/

/-- A sequence of values read lazily out of an encoded list. `stopped` is set once a read
failed without moving the cursor: going round again would yield that failure forever. -/
structure Entries where
  reader : Der.Reader
  stopped : Bool
  deriving Repr, DecidableEq

namespace Entries

variable {α : Type}

/-- The iterator at the start of `contents`. -/
def new (contents : Bytes) : Entries := ⟨Der.Reader.new contents, false⟩

/-- One call of `next`: `readOne` is how the iterator reads an entry, with the reader it
leaves behind. -/
def next (readOne : Der.Reader → Except X509Error α × Der.Reader) (it : Entries) :
    Option (Except X509Error α × Entries) :=
  if it.stopped || it.reader.isEmpty then
    none
  else
    let before := it.reader.remaining
    let (item, reader) := readOne it.reader
    let stuck := item.toOption.isNone && reader.remaining == before
    some (item, ⟨reader, it.stopped || stuck⟩)

/-- The items of at most `fuel` calls of `next`. -/
def listFuel (readOne : Der.Reader → Except X509Error α × Der.Reader) :
    Nat → Entries → List (Except X509Error α)
  | 0, _ => []
  | fuel + 1, it =>
      match next readOne it with
      | none => []
      | some (item, it') => item :: listFuel readOne fuel it'

/-- Every item of a `for` loop over an encoded list. Each call either takes an octet or
stops the iterator, so there are at most as many items as octets. -/
def list (readOne : Der.Reader → Except X509Error α × Der.Reader) (contents : Bytes) :
    List (Except X509Error α) :=
  listFuel readOne contents.length (new contents)

end Entries

/-- The result of a read together with the reader it leaves, the error wrapped. -/
def readItem {α : Type} (read : Read α) (r : Der.Reader) : Except X509Error α × Der.Reader :=
  match read r with
  | .ok a r' => (.ok a, r')
  | .error e r' => (.error (.der e), r')

/-- `IA5String` is ASCII by definition, so anything above `0x7f` is malformed. -/
def ia5 (bytes : Bytes) : Except X509Error Bytes :=
  if bytes.all (· < 0x80) then .ok bytes else .error .nonAsciiName

/-- What a `GeneralName`'s value denotes. -/
def GeneralName.ofValue (value : Value) : Except X509Error GeneralName :=
  let contents := value.contents
  match value.tag.octet with
  | 0x81 => GeneralName.rfc822Name <$> ia5 contents
  | 0x82 => GeneralName.dnsName <$> ia5 contents
  | 0x86 => GeneralName.uri <$> ia5 contents
  | 0x87 =>
      if contents.length = 4 ∨ contents.length = 16 then
        .ok (.ipAddress contents)
      else
        .error (.malformedIpAddress contents.length)
  | tag => .ok (.other tag contents)

/-- `GeneralNames::read_one`. -/
def GeneralNames.readOne (r : Der.Reader) : Except X509Error GeneralName × Der.Reader :=
  match readItem readAny r with
  | (.ok value, r') => (GeneralName.ofValue value, r')
  | (.error e, r') => (.error e, r')

/-- How `ExtendedKeyUsage::next` reads an entry. -/
def ExtendedKeyUsage.readOne (r : Der.Reader) : Except X509Error ObjectIdentifier × Der.Reader :=
  readItem readOid r

/-! ### Extensions -/

/-- The parsed extensions this module understands, plus a record of the critical ones it
does not. -/
structure Extensions where
  basicConstraints : Option BasicConstraints := none
  keyUsage : Option KeyUsage := none
  extendedKeyUsageBody : Option Bytes := none
  subjectAltName : Option Bytes := none
  nameConstraints : Option Bytes := none
  unhandledCritical : List ObjectIdentifier := []
  deriving Repr, DecidableEq

namespace Extensions

/-- `subjectAltName` entries, or none if the extension is absent. -/
def subjectAltNames (exts : Extensions) : List (Except X509Error GeneralName) :=
  Entries.list GeneralNames.readOne (exts.subjectAltName.getD [])

/-- `extendedKeyUsage` OIDs, or none if absent. -/
def extendedKeyUsage (exts : Extensions) : List (Except X509Error ObjectIdentifier) :=
  Entries.list ExtendedKeyUsage.readOne (exts.extendedKeyUsageBody.getD [])

/-- True if an `extendedKeyUsage` extension was present. -/
def hasExtendedKeyUsage (exts : Extensions) : Bool := exts.extendedKeyUsageBody.isSome

end Extensions

/-! ### Parsing -/

/-- Run a DER read whose failure ends the certificate's parse. -/
def onX {α : Type} (r : Der.Reader) (read : Read α) : Except X509Error (α × Der.Reader) :=
  mapErr X509Error.der (on r read)

/-- `finish`, in the certificate parser's error type. -/
def finishX (r : Der.Reader) : Except X509Error Unit := mapErr X509Error.der r.finish

/-- An optional last field: absent when nothing is left to read. -/
def readLast {α : Type} (r : Der.Reader) (read : Read α) :
    Except X509Error (Option α × Der.Reader) :=
  if r.isEmpty then .ok (none, r) else (fun (a, r) => (some a, r)) <$> onX r read

def readAlgorithmIdentifier (r : Der.Reader) :
    Except X509Error (AlgorithmIdentifier × Der.Reader) := do
  let (value, r) ← onX r (read .sequence)
  let inner := Der.Reader.new value.contents
  let (oid, inner) ← onX inner readOid
  let (parameters, inner) ← readLast inner readAny
  finishX inner
  .ok ({ oid, parameters := parameters.map (·.encoded), encoded := value.encoded }, r)

def readSpki (r : Der.Reader) : Except X509Error (SubjectPublicKeyInfo × Der.Reader) := do
  let (value, r) ← onX r (read .sequence)
  let inner := Der.Reader.new value.contents
  let (algorithm, inner) ← readAlgorithmIdentifier inner
  let (key, inner) ← onX inner readBitStringOctets
  finishX inner
  .ok ({ algorithm, key, encoded := value.encoded }, r)

/-- The number a run of ASCII digits denotes. -/
def digits (bytes : Bytes) : Except X509Error Nat :=
  bytes.foldlM
    (fun value b =>
      if 0x30 ≤ b ∧ b ≤ 0x39 then .ok (value * 10 + (b - 0x30).toNat)
      else .error .malformedTime)
    0

def isLeapYear (year : Nat) : Bool := year % 4 == 0 && (year % 100 != 0 || year % 400 == 0)

def daysInMonth (year month : Nat) : Nat :=
  match month with
  | 1 | 3 | 5 | 7 | 8 | 10 | 12 => 31
  | 4 | 6 | 9 | 11 => 30
  | 2 => if isLeapYear year then 29 else 28
  | _ => 0

/-- Days since 1970-01-01 for a proleptic Gregorian date. -/
def daysFromCivil (year month day : Int) : Int :=
  let year := if month ≤ 2 then year - 1 else year
  let era := (if 0 ≤ year then year else year - 399).tdiv 400
  let yearOfEra := year - era * 400
  let monthIndex := (month + 9).tmod 12
  let dayOfYear := (153 * monthIndex + 2).tdiv 5 + day - 1
  let dayOfEra := yearOfEra * 365 + yearOfEra.tdiv 4 - yearOfEra.tdiv 100 + dayOfYear
  era * 146097 + dayOfEra - 719468

/-- The year of a `Time` and the digits after it. -/
def timeYear (value : Value) : Except X509Error (Nat × Bytes) :=
  let bytes := value.contents
  if value.tag = .utcTime then do
    -- YYMMDDHHMMSSZ: 50..99 is 19xx, 00..49 is 20xx.
    refuse (bytes.length ≠ 13) .malformedTime
    let two ← digits (bytes.take 2)
    .ok (if 50 ≤ two then 1900 + two else 2000 + two, bytes.drop 2)
  else if value.tag = .generalizedTime then do
    -- YYYYMMDDHHMMSSZ
    refuse (bytes.length ≠ 15) .malformedTime
    let year ← digits (bytes.take 4)
    .ok (year, bytes.drop 4)
  else
    .error .malformedTime

/-- RFC 5280 §4.1.2.5: `UTCTime` or `GeneralizedTime`, in `Z` with seconds and without a
fractional part. -/
def readTime (r : Der.Reader) : Except X509Error (Int × Der.Reader) := do
  let (value, r) ← onX r readAny
  let (year, rest) ← timeYear value
  refuse (rest.getLast? ≠ some 0x5a) .malformedTime
  let month ← digits ((rest.drop 0).take 2)
  let day ← digits ((rest.drop 2).take 2)
  let hour ← digits ((rest.drop 4).take 2)
  let minute ← digits ((rest.drop 6).take 2)
  let second ← digits ((rest.drop 8).take 2)
  refuse (¬ (1 ≤ month ∧ month ≤ 12) ∨ day < 1 ∨ daysInMonth year month < day ∨ 23 < hour ∨
    59 < minute ∨ 59 < second) .malformedTime
  let days := daysFromCivil year month day
  .ok (days * 86400 + hour * 3600 + minute * 60 + second, r)

def readValidity (r : Der.Reader) : Except X509Error (Validity × Der.Reader) := do
  let (inner, r) ← onX r readSequence
  let (notBefore, inner) ← readTime inner
  let (notAfter, inner) ← readTime inner
  finishX inner
  .ok (⟨notBefore, notAfter⟩, r)

/-- An optional `BOOLEAN DEFAULT FALSE`, read leniently as far as an explicit `false` goes;
`e` is the error for any other content. -/
def defaultFalse (value : Option Value) (e : X509Error) : Except X509Error Bool :=
  match value with
  | none => .ok false
  | some value =>
      match value.contents with
      | [0x00] => .ok false
      | [0xff] => .ok true
      | _ => .error e

def readBasicConstraints (r : Der.Reader) : Except X509Error (BasicConstraints × Der.Reader) := do
  let (inner, r) ← onX r readSequence
  let (ca, inner) ← onX inner (readOptional .boolean)
  let isCa ← defaultFalse ca .malformedBasicConstraints
  let (pathLenConstraint, inner) ← readLast inner readU64
  finishX inner
  -- A non-CA carrying a path length states a constraint on a chain it can never be part of.
  refuse (pathLenConstraint.isSome ∧ isCa = false) .malformedBasicConstraints
  .ok (⟨isCa, pathLenConstraint⟩, r)

/-- The sixteen flag bits of a `keyUsage` string of at most two octets. -/
def keyUsageBits (bits : Bytes) : UInt16 :=
  (bits.headD 0).toUInt16 <<< 8 ||| ((bits.drop 1).headD 0).toUInt16

/-- Store one extension's value, or count it if it is critical and not understood. -/
def applyExtension (exts : Extensions) (id : ObjectIdentifier) (critical : Bool)
    (contents : Bytes) : Except X509Error Extensions := do
  let inner := Der.Reader.new contents
  if id = Oid.basicConstraints then
    let (constraints, inner) ← readBasicConstraints inner
    finishX inner
    .ok { exts with basicConstraints := some constraints }
  else if id = Oid.keyUsage then
    let ((bits, _unused), inner) ← onX inner readBitStringFlags
    finishX inner
    refuse (2 < bits.length) .malformedKeyUsage
    .ok { exts with keyUsage := some ⟨keyUsageBits bits⟩ }
  else if id = Oid.extendedKeyUsage then
    let (purposes, inner) ← onX inner (read .sequence)
    finishX inner
    .ok { exts with extendedKeyUsageBody := some purposes.contents }
  else if id = Oid.subjectAltName then
    let (names, inner) ← onX inner (read .sequence)
    finishX inner
    .ok { exts with subjectAltName := some names.contents }
  else if id = Oid.nameConstraints then
    let (constraints, inner) ← onX inner (read .sequence)
    finishX inner
    .ok { exts with nameConstraints := some constraints.contents }
  else if critical then
    .ok { exts with unhandledCritical := exts.unhandledCritical ++ [id] }
  else
    .ok exts

/-- The header and contents of one `Extension`. -/
def readExtension (list : Der.Reader) :
    Except X509Error ((ObjectIdentifier × Bool × Bytes) × Der.Reader) := do
  let (extension, list) ← onX list readSequence
  let (id, extension) ← onX extension readOid
  let (flag, extension) ← onX extension (readOptional .boolean)
  let critical ← defaultFalse flag (.der (.nonCanonicalBoolean 0))
  let (value, extension) ← onX extension (read .octetString)
  finishX extension
  .ok ((id, critical, value.contents), list)

/-- The loop of `read_extensions`: every round takes at least one octet of the list, so the
list's length bounds the rounds. -/
def readExtensionsLoop : Nat → Extensions → List ObjectIdentifier → Der.Reader →
    Except X509Error Extensions
  | 0, exts, _, _ => .ok exts
  | fuel + 1, exts, seen, list =>
      if list.isEmpty then
        .ok exts
      else do
        let ((id, critical, contents), list) ← readExtension list
        refuse (id ∈ seen) .duplicateExtension
        let exts ← applyExtension exts id critical contents
        readExtensionsLoop fuel exts (seen ++ [id]) list

def readExtensions (list : Der.Reader) : Except X509Error Extensions := do
  refuse (list.isEmpty = true) .emptyExtensions
  readExtensionsLoop list.input.length {} [] list

/-- A parsed X.509 certificate. -/
structure Certificate where
  tbsDer : Bytes
  version : Version
  serial : Bytes
  signatureAlgorithm : AlgorithmIdentifier
  issuer : Bytes
  validity : Validity
  subject : Bytes
  subjectPublicKeyInfo : SubjectPublicKeyInfo
  extensions : Extensions
  signature : Bytes
  deriving Repr, DecidableEq

namespace Certificate

/-- True when this certificate's `subject` equals its `issuer`. -/
def isSelfIssued (certificate : Certificate) : Bool := certificate.issuer == certificate.subject

/-- `version [0] EXPLICIT INTEGER DEFAULT v1`. -/
def parseVersion (wrapper : Option Value) : Except X509Error Version :=
  match wrapper with
  | none => .ok .v1
  | some wrapper => do
      let (raw, inner) ← onX (Der.Reader.new wrapper.contents) readU64
      finishX inner
      match raw with
      | 0 => .error .explicitDefaultVersion
      | 1 => .ok .v2
      | 2 => .ok .v3
      | other => .error (.unsupportedVersion other)

/-- `extensions [3] EXPLICIT Extensions`, v3 only. -/
def parseExtensions (version : Version) (wrapper : Option Value) : Except X509Error Extensions :=
  match wrapper with
  | none => .ok {}
  | some wrapper => do
      refuse (version ≠ .v3) (.extensionsBeforeV3 version)
      let (list, inner) ← onX (Der.Reader.new wrapper.contents) readSequence
      finishX inner
      readExtensions list

/-- Parse one DER-encoded certificate, which must be the entire input. -/
def parse (der : Bytes) : Except X509Error Certificate := do
  let (certificate, outer) ← onX (Der.Reader.new der) readSequence
  finishX outer
  let (tbsValue, certificate) ← onX certificate (read .sequence)
  let tbs := Der.Reader.new tbsValue.contents
  let (wrapper, tbs) ← onX tbs (readOptional (.context 0 true))
  let version ← parseVersion wrapper
  let (serial, tbs) ← onX tbs readUnsignedInteger
  let (signatureAlgorithm, tbs) ← readAlgorithmIdentifier tbs
  let (issuer, tbs) ← onX tbs (read .sequence)
  let (validity, tbs) ← readValidity tbs
  let (subject, tbs) ← onX tbs (read .sequence)
  let (spki, tbs) ← readSpki tbs
  -- issuerUniqueID [1] and subjectUniqueID [2], v2 and v3 only.
  let (issuerId, tbs) ← onX tbs (readOptional (.context 1 false))
  let (subjectId, tbs) ← onX tbs (readOptional (.context 2 false))
  refuse ((issuerId.isSome ∨ subjectId.isSome) ∧ version = .v1) .uniqueIdentifierInV1
  let (wrapper, tbs) ← onX tbs (readOptional (.context 3 true))
  let extensions ← parseExtensions version wrapper
  finishX tbs
  let (outerAlgorithm, certificate) ← readAlgorithmIdentifier certificate
  refuse (outerAlgorithm.encoded ≠ signatureAlgorithm.encoded) .signatureAlgorithmMismatch
  let (signature, certificate) ← onX certificate readBitStringOctets
  finishX certificate
  .ok {
    tbsDer := tbsValue.encoded
    version
    serial
    signatureAlgorithm
    issuer := issuer.encoded
    validity
    subject := subject.encoded
    subjectPublicKeyInfo := spki
    extensions
    signature }

end Certificate

/-! ### Writing a certificate

For running the model: the smallest certificate with a name in it. -/

/-- A DER element with fewer than 256 octets of contents. -/
def tlv (tag : UInt8) (contents : Bytes) : Bytes :=
  tag :: ((if contents.length < 128 then [] else [0x81]) ++ UInt8.ofNat contents.length :: contents)

/-- The `AlgorithmIdentifier` of Ed25519. -/
def ed25519Identifier : Bytes := tlv 0x30 (tlv 0x06 Oid.ed25519.asBytes)

/-- A `TBSCertificate` for a key and one dNSName, its issuer and subject both empty names, valid
from 1970 through 2049. -/
def sampleTbs (key name : Bytes) : Bytes :=
  tlv 0x30 (tlv 0xa0 (tlv 0x02 [2]) ++ tlv 0x02 [1] ++ ed25519Identifier ++ tlv 0x30 [] ++
    tlv 0x30 (tlv 0x17 [0x37, 0x30, 0x30, 0x31, 0x30, 0x31, 0x30, 0x30, 0x30, 0x30, 0x30, 0x30, 0x5a] ++
      tlv 0x17 [0x34, 0x39, 0x31, 0x32, 0x33, 0x31, 0x32, 0x33, 0x35, 0x39, 0x35, 0x39, 0x5a]) ++
    tlv 0x30 [] ++ tlv 0x30 (ed25519Identifier ++ tlv 0x03 (0 :: key)) ++
    tlv 0xa3 (tlv 0x30 (tlv 0x30 (tlv 0x06 Oid.subjectAltName.asBytes ++
      tlv 0x04 (tlv 0x30 (tlv 0x82 name))))))

/-- That certificate, with a signature. -/
def sampleDer (key name signature : Bytes) : Bytes :=
  tlv 0x30 (sampleTbs key name ++ ed25519Identifier ++ tlv 0x03 (0 :: signature))

end RustyTls
