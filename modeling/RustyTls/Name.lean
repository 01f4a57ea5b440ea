import RustyTls.X509

/-!
# RustyTls.Name

Server name matching and name constraints (`handrolled/name.rs`).

Matching asks whether a certificate authenticates a name and expands wildcards;
constraining asks whether a CA was permitted to issue for it and does not. Both walk the
same `subjectAltName` list and both skip an entry that does not parse. There is no Common
Name fallback: a certificate with no `subjectAltName` matches nothing.

A name is an octet string here, as it is to every comparison the source makes.
-/

namespace RustyTls

open Core Der

/-- An IP address: the four octets of an IPv4 one or the sixteen of an IPv6 one. -/
structure IpAddr where
  octets : Bytes
  length_octets : octets.length = 4 ∨ octets.length = 16
  deriving Repr, DecidableEq

/-- The identity a caller is trying to reach. -/
inductive ServerName
  | dns (name : Bytes)
  | ip (address : IpAddr)
  deriving Repr, DecidableEq

/-- Why a name did not match, or a constraint was not satisfied. -/
inductive NameError
  | noMatchingSubjectAltName
  | malformedReferenceName
  | excludedByNameConstraint
  | notPermittedByNameConstraint
  | unsupportedNameConstraint (tag : UInt8)
  | malformedNameConstraints
  deriving Repr, DecidableEq

/-! ### DNS name syntax -/

/-- Longest permitted presentation-format DNS name, per RFC 1035 §2.3.4. -/
def maxNameLen : Nat := 253

/-- Longest permitted label, per RFC 1035 §2.3.4. -/
def maxLabelLen : Nat := 63

/-- The octet `.`. -/
def dot : UInt8 := 0x2e

/-- The octet `*`. -/
def star : UInt8 := 0x2a

def isAscii (name : Bytes) : Bool := name.all (· < 0x80)

/-- An octet that may stand in a label: a letter, a digit, `-` or `_`. -/
def isLabelByte (b : UInt8) : Bool :=
  (0x30 ≤ b && b ≤ 0x39) || (0x41 ≤ b && b ≤ 0x5a) || (0x61 ≤ b && b ≤ 0x7a) ||
    b == 0x2d || b == 0x5f

/-- Is this a syntactically usable DNS name? -/
def isValidDnsName (name : Bytes) : Bool :=
  !(name.isEmpty || maxNameLen < name.length || !isAscii name) &&
    !(name.getLast? == some dot || name.head? == some dot) &&
    (name.splitOn dot).all fun label =>
      !label.isEmpty && label.length ≤ maxLabelLen && label.all isLabelByte

def toAsciiLowercase (b : UInt8) : UInt8 := if 0x41 ≤ b ∧ b ≤ 0x5a then b + 0x20 else b

/-- Case-insensitive ASCII equality. -/
def eqIgnoreCase (left right : Bytes) : Bool :=
  left.length == right.length && left.map toAsciiLowercase == right.map toAsciiLowercase

/-- The parts of a name before and after its first dot. -/
def splitOnce (name : Bytes) : Option (Bytes × Bytes) :=
  match name.dropWhile (· ≠ dot) with
  | [] => none
  | _ :: rest => some (name.takeWhile (· ≠ dot), rest)

/-- What follows `*.`, if the name starts with it. -/
def stripWildcard : Bytes → Option Bytes
  | a :: b :: suffix => if a = star ∧ b = dot then some suffix else none
  | _ => none

/-- Does a presented `dNSName` match a reference name? -/
def dnsNameMatches (presented reference : Bytes) : Bool :=
  match stripWildcard presented with
  | none => isValidDnsName presented && eqIgnoreCase presented reference
  | some suffix =>
      -- `*.com` would be a certificate for a whole top-level domain.
      if !isValidDnsName suffix || !suffix.contains dot then
        false
      else
        -- The wildcard replaces exactly one label.
        match splitOnce reference with
        | some (first, rest) => !first.isEmpty && eqIgnoreCase rest suffix
        | none => false

/-! ### Server name matching -/

/-- Does one `subjectAltName` entry authenticate `name`? -/
def entryMatches (name : ServerName) (entry : Except X509Error GeneralName) : Bool :=
  match name, entry with
  | .dns reference, .ok (.dnsName presented) => dnsNameMatches presented reference
  | .ip address, .ok (.ipAddress presented) => presented == address.octets
  | _, _ => false

/-- A malformed reference name is the caller's error, not a plain "no". -/
def checkReference : ServerName → Except NameError Unit
  | .dns reference => refuse (isValidDnsName reference = false) .malformedReferenceName
  | .ip _ => .ok ()

/-- Does this certificate authenticate `name`? -/
def verifyServerName (certificate : Certificate) (name : ServerName) : Except NameError Unit := do
  checkReference name
  refuse (certificate.extensions.subjectAltNames.any (entryMatches name) = false)
    .noMatchingSubjectAltName

/-! ### Name constraints -/

/-- One `GeneralSubtree` base this implementation can evaluate. -/
inductive Subtree
  | dns (base : Bytes)
  | ip (address mask : Bytes)
  deriving Repr, DecidableEq

/-- The parsed permitted and excluded subtrees of one CA's constraints. -/
structure Constraints where
  permitted : List Subtree
  excluded : List Subtree
  deriving Repr, DecidableEq

def parseSubtree (r : Der.Reader) : Except NameError (Subtree × Der.Reader) := do
  let (sequence, r) ← mapErr (fun _ => NameError.malformedNameConstraints) (on r (read .sequence))
  let (base, inner) ← mapErr (fun _ => NameError.malformedNameConstraints)
    (on (Der.Reader.new sequence.contents) readAny)
  -- `minimum` must be its default and `maximum` absent, so nothing may follow the base.
  refuse (inner.isEmpty = false) .malformedNameConstraints
  match base.tag.octet with
  | 0x82 => do
      refuse (isAscii base.contents = false) .malformedNameConstraints
      .ok (.dns base.contents, r)
  | 0x87 =>
      if base.contents.length = 8 then
        .ok (.ip (base.contents.take 4) (base.contents.drop 4), r)
      else if base.contents.length = 32 then
        .ok (.ip (base.contents.take 16) (base.contents.drop 16), r)
      else
        .error .malformedNameConstraints
  | tag => .error (.unsupportedNameConstraint (tag &&& 0x1f))

/-- The loop over one list of subtrees; every round takes at least one octet. -/
def parseSubtreeLoop : Nat → Der.Reader → Except NameError (List Subtree)
  | 0, _ => .ok []
  | fuel + 1, r =>
      if r.isEmpty then
        .ok []
      else do
        let (subtree, r) ← parseSubtree r
        let rest ← parseSubtreeLoop fuel r
        .ok (subtree :: rest)

/-- One of the two optional lists of subtrees, which has at least one entry if present. -/
def parseSubtrees (tag : Tag) (r : Der.Reader) : Except NameError (List Subtree × Der.Reader) := do
  let (value, r) ← mapErr (fun _ => NameError.malformedNameConstraints) (on r (readOptional tag))
  match value with
  | none => .ok ([], r)
  | some value => do
      let subtrees := Der.Reader.new value.contents
      refuse (subtrees.isEmpty = true) .malformedNameConstraints
      let list ← parseSubtreeLoop value.contents.length subtrees
      .ok (list, r)

/-- Parse a `NameConstraints` extension body. -/
def parseConstraints (body : Bytes) : Except NameError Constraints := do
  let (permitted, r) ← parseSubtrees (.context 0 true) (Der.Reader.new body)
  let (excluded, r) ← parseSubtrees (.context 1 true) r
  mapErr (fun _ => NameError.malformedNameConstraints) r.finish
  .ok ⟨permitted, excluded⟩

/-- Does `name` fall inside the DNS subtree at `base`? -/
def dnsWithin (base name : Bytes) : Bool :=
  if base.isEmpty then
    true
  else if eqIgnoreCase base name then
    true
  else if base.length < name.length then
    -- The boundary must be a label boundary.
    let offset := name.length - base.length
    name[offset - 1]? == some dot && eqIgnoreCase (name.drop offset) base
  else
    false

/-- Does an address fall inside an IP subtree? -/
def ipWithin (address mask candidate : Bytes) : Bool :=
  if candidate.length ≠ address.length then
    false
  else
    ((candidate.zip address).zip mask).all fun ((value, base), mask) =>
      value &&& mask == base &&& mask

/-- Does one subtree contain a general name of its own type? -/
def Subtree.contains (subtree : Subtree) (name : GeneralName) : Bool :=
  match subtree, name with
  | .dns base, .dnsName presented => dnsWithin base presented
  | .ip address mask, .ipAddress presented => ipWithin address mask presented
  | _, _ => false

/-- Is a subtree of the type that constrains this general name? -/
def Subtree.constrains (subtree : Subtree) (name : GeneralName) : Bool :=
  match subtree, name with
  | .dns _, .dnsName _ => true
  | .ip _ _, .ipAddress _ => true
  | _, _ => false

/-- Check one `subjectAltName` entry against one CA's constraints. -/
def checkEntry (constraints : Constraints) (entry : Except X509Error GeneralName) :
    Except NameError Unit :=
  match entry with
  | .error _ => .ok ()
  | .ok name => do
      refuse (constraints.excluded.any (·.contains name) = true) .excludedByNameConstraint
      refuse (constraints.permitted.any (·.constrains name) = true ∧
        constraints.permitted.any (·.contains name) = false) .notPermittedByNameConstraint

/-- Check one certificate's names against one CA's constraints. -/
def checkOne (certificate : Certificate) (constraints : Constraints) : Except NameError Unit :=
  certificate.extensions.subjectAltNames.forM (checkEntry constraints)

/-- One certificate below a constraining CA. A self-issued one is skipped except when last: a
CA re-issuing to itself is a key rollover. -/
def checkSubordinate (constraints : Constraints) (certificate : Certificate) (isLast : Bool) :
    Except NameError Unit :=
  if certificate.isSelfIssued && !isLast then .ok () else checkOne certificate constraints

/-- The loop over the certificates below a constraining CA. -/
def checkSubordinates (constraints : Constraints) : List Certificate → Except NameError Unit
  | [] => .ok ()
  | certificate :: rest => do
      checkSubordinate constraints certificate rest.isEmpty
      checkSubordinates constraints rest

/-- Apply a raw `NameConstraints` body to every certificate below it, the end-entity
certificate last. -/
def checkNameConstraintsBody (body : Bytes) (subordinates : List Certificate) :
    Except NameError Unit := do
  let constraints ← parseConstraints body
  checkSubordinates constraints subordinates

/-- Apply one CA's `NameConstraints` to every certificate below it. -/
def checkNameConstraints (constraining : Certificate) (subordinates : List Certificate) :
    Except NameError Unit :=
  match constraining.extensions.nameConstraints with
  | some body => checkNameConstraintsBody body subordinates
  | none => .ok ()

end RustyTls
