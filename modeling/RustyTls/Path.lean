import RustyTls.Name
import RustyTls.Verify

/-!
# RustyTls.Path

Certification path building and validation (`handrolled/path.rs`).

`search` is a depth-first search with a shared stack of the intermediates in use, a shared
budget of signature checks and the most specific error seen. The three travel in a
`SearchState`, because a branch that fails leaves its effect on the budget and the error
behind even as its certificates come off the stack. The rules about one certificate are
checked when it is pushed; the rules about a whole path run in `finalize` when an anchor has
been reached.
-/

namespace RustyTls

open Core Der

/-- A trust anchor: a name and a public key that are trusted a priori, with the name
constraints that apply to every path ending there. -/
structure TrustAnchor where
  subject : Bytes
  publicKey : SubjectPublicKeyInfo
  nameConstraints : Option Bytes
  deriving Repr, DecidableEq

/-- Take the name and key out of a certificate from a trust store. -/
def TrustAnchor.fromCertificate (certificate : Certificate) : TrustAnchor where
  subject := certificate.subject
  publicKey := certificate.subjectPublicKeyInfo
  nameConstraints := certificate.extensions.nameConstraints

/-- Knobs for `validatePath`, all of them limits rather than relaxations. -/
structure PathOptions where
  time : Int := 0
  maxPathLength : Nat := 8
  maxSignatureChecks : Nat := 100
  requiredEku : Option ObjectIdentifier := some Oid.ekuServerAuth
  deriving Repr, DecidableEq

/-- A path that validated: the anchor it ends at, and the intermediates from the end-entity
certificate upward, as indices. -/
structure VerifiedPath where
  anchor : Nat
  intermediates : List Nat
  deriving Repr, DecidableEq

/-- Why no valid path was found. -/
inductive PathError
  | noPathToTrustAnchor
  | notYetValid (notBefore : Int)
  | expired (notAfter : Int)
  | notACertificateAuthority
  | missingKeyCertSign
  | pathLengthExceeded
  | unhandledCriticalExtension (oid : Bytes)
  | requiredEkuMissing
  | malformedExtendedKeyUsage
  | searchBudgetExhausted
  | signature (error : VerifyError)
  | name (error : NameError)
  deriving Repr, DecidableEq

/-- How specific an error is, for choosing which one to report. -/
def specificity : PathError → Nat
  | .noPathToTrustAnchor => 0
  | .signature .badSignature => 1
  | _ => 2

/-! ### The rules about one certificate -/

def checkValidity (certificate : Certificate) (time : Int) : Except PathError Unit := do
  let validity := certificate.validity
  refuse (time < validity.notBefore) (.notYetValid validity.notBefore)
  refuse (validity.notAfter < time) (.expired validity.notAfter)

/-- RFC 5280 §6.1.3(f): a critical extension the validator does not recognise is fatal. -/
def checkNoUnhandledCritical (certificate : Certificate) : Except PathError Unit :=
  match certificate.extensions.unhandledCritical with
  | oid :: _ => .error (.unhandledCriticalExtension oid.asBytes)
  | [] => .ok ()

/-- Everything a certificate must satisfy to act as a CA in a path. -/
def checkCa (certificate : Certificate) (time : Int) : Except PathError Unit := do
  checkValidity certificate time
  checkNoUnhandledCritical certificate
  -- Absence of basicConstraints is not permission.
  refuse ((certificate.extensions.basicConstraints.map (·.isCa)).getD false = false)
    .notACertificateAuthority
  -- Absence of keyUsage is.
  refuse ((certificate.extensions.keyUsage.map (·.keyCertSign)).getD true = false)
    .missingKeyCertSign

/-- The loop of `check_eku` over the purposes a certificate lists. -/
def checkPurposes (required : ObjectIdentifier) :
    List (Except X509Error ObjectIdentifier) → Except PathError Unit
  | [] => .error .requiredEkuMissing
  | .error _ :: _ => .error .malformedExtendedKeyUsage
  | .ok purpose :: rest =>
      if purpose = required ∨ purpose = Oid.ekuAny then .ok () else checkPurposes required rest

/-- The end-entity certificate must permit `required`, if one is required. An absent
`extendedKeyUsage` extension permits every purpose. -/
def checkEku (certificate : Certificate) (required : Option ObjectIdentifier) :
    Except PathError Unit :=
  match required with
  | none => .ok ()
  | some required =>
      if certificate.extensions.hasExtendedKeyUsage then
        checkPurposes required certificate.extensions.extendedKeyUsage
      else
        .ok ()

/-! ### The rules about a whole path -/

/-- The certificates at the given indices. -/
def certificatesAt (intermediates : List Certificate) (used : List Nat) : List Certificate :=
  used.filterMap fun index => intermediates[index]?

/-- The `pathLenConstraint` of a certificate. -/
def pathLenConstraint (certificate : Certificate) : Option Nat :=
  certificate.extensions.basicConstraints.bind (·.pathLenConstraint)

/-- One step of `check_path_length`, from the anchor down: `remaining` certificates that are
not self-issued may still follow. -/
def pathLengthStep (remaining : Nat) (certificate : Certificate) : Except PathError Nat := do
  refuse (certificate.isSelfIssued = false ∧ remaining = 0) .pathLengthExceeded
  let remaining := if certificate.isSelfIssued then remaining else remaining - 1
  .ok (match pathLenConstraint certificate with
    | some constraint => min remaining constraint
    | none => remaining)

/-- RFC 5280 §6.1.4(l) and (m), applied to an assembled path. -/
def checkPathLength (intermediates : List Certificate) (used : List Nat) :
    Except PathError Unit := do
  let _ ← (certificatesAt intermediates used.reverse).foldlM pathLengthStep (2 ^ 64 - 1)
  .ok ()

/-- The loop of `finalize`: each certificate of a chain constrains everything after it. The
last one, the end-entity certificate, constrains nothing. -/
def checkChainConstraints : List Certificate → Except PathError Unit
  | [] => .ok ()
  | [_] => .ok ()
  | constraining :: subordinates => do
      mapErr PathError.name (checkNameConstraints constraining subordinates)
      checkChainConstraints subordinates

/-- The anchor constrains the whole path, if it constrains anything. -/
def checkAnchorConstraints (anchor : TrustAnchor) (chain : List Certificate) :
    Except PathError Unit :=
  match anchor.nameConstraints with
  | some body => mapErr PathError.name (checkNameConstraintsBody body chain)
  | none => .ok ()

/-- The rules that can only be checked once a whole path exists. -/
def finalize (anchor : TrustAnchor) (endEntity : Certificate) (intermediates : List Certificate)
    (used : List Nat) : Except PathError Unit := do
  checkPathLength intermediates used
  -- Ordered from the anchor down, the end-entity certificate last.
  let chain := certificatesAt intermediates used.reverse ++ [endEntity]
  checkAnchorConstraints anchor chain
  checkChainConstraints chain

/-! ### The search -/

/-- What the branches of a search share. -/
structure SearchState where
  used : List Nat
  budget : Nat
  best : PathError
  deriving Repr, DecidableEq

/-- Keep the more specific of two errors. -/
def SearchState.record (s : SearchState) (candidate : PathError) : SearchState :=
  if specificity s.best < specificity candidate then { s with best := candidate } else s

/-- Spend one signature check. -/
def SearchState.spend (s : SearchState) : SearchState := { s with budget := s.budget - 1 }

/-- How one loop of the search ended. -/
inductive Flow
  /-- An anchor was reached. -/
  | found (anchor : Nat)
  /-- The budget ran out: give up on this certificate. -/
  | stop
  /-- Nothing was found and the search goes on. -/
  | next
  deriving Repr, DecidableEq

/-- The inputs a search does not change. -/
structure PathInput where
  ring : Ring
  endEntity : Certificate
  intermediates : List Certificate
  anchors : List TrustAnchor
  options : PathOptions

/-- The loop over the anchors: the shortest path is preferred. -/
def searchAnchors (input : PathInput) (current : Certificate) :
    List (TrustAnchor × Nat) → SearchState → Flow × SearchState
  | [], s => (.next, s)
  | (anchor, index) :: rest, s =>
      if anchor.subject ≠ current.issuer then
        searchAnchors input current rest s
      else if s.budget = 0 then
        (.stop, s.record .searchBudgetExhausted)
      else
        match verifySignature input.ring current anchor.publicKey with
        | .error err => searchAnchors input current rest (s.spend.record (.signature err))
        | .ok () =>
            match finalize anchor input.endEntity input.intermediates s.used with
            | .ok () => (.found index, s.spend)
            | .error err => searchAnchors input current rest (s.spend.record err)

/-- The loop over the intermediates, with the recursive call as a parameter. -/
def searchCandidates (input : PathInput) (current : Certificate)
    (recurse : Certificate → SearchState → Option Nat × SearchState) :
    List (Certificate × Nat) → SearchState → Option Nat × SearchState
  | [], s => (none, s)
  | (candidate, index) :: rest, s =>
      -- Reusing a certificate would be a cycle.
      if index ∈ s.used then
        searchCandidates input current recurse rest s
      else if candidate.subject ≠ current.issuer then
        searchCandidates input current recurse rest s
      else
        match checkCa candidate input.options.time with
        | .error err => searchCandidates input current recurse rest (s.record err)
        | .ok () =>
            if s.budget = 0 then
              (none, s.record .searchBudgetExhausted)
            else
              match verifySignature input.ring current candidate.subjectPublicKeyInfo with
              | .error err =>
                  searchCandidates input current recurse rest (s.spend.record (.signature err))
              | .ok () =>
                  match recurse candidate { s.spend with used := s.used ++ [index] } with
                  | (some anchor, s') => (some anchor, s')
                  | (none, s') =>
                      searchCandidates input current recurse rest
                        { s' with used := s'.used.dropLast }

/-- Depth-first search for an issuer of `current`, returning the anchor index. `deeper` is how
many more certificates the path may take: the source's `max_path_length - depth`. -/
def search (input : PathInput) : Nat → Certificate → SearchState → Option Nat × SearchState
  | deeper, current, s =>
      match searchAnchors input current input.anchors.zipIdx s with
      | (.found anchor, s') => (some anchor, s')
      | (.stop, s') => (none, s')
      | (.next, s') =>
          match deeper with
          | 0 => (none, s')
          | deeper + 1 =>
              searchCandidates input current (search input deeper) input.intermediates.zipIdx s'

/-- Build and validate a certification path. -/
def validatePath (ring : Ring) (endEntity : Certificate) (intermediates : List Certificate)
    (anchors : List TrustAnchor) (options : PathOptions) : Except PathError VerifiedPath := do
  checkValidity endEntity options.time
  checkNoUnhandledCritical endEntity
  checkEku endEntity options.requiredEku
  refuse (options.maxPathLength = 0) .noPathToTrustAnchor
  let input : PathInput := { ring, endEntity, intermediates, anchors, options }
  let start : SearchState := ⟨[], options.maxSignatureChecks, .noPathToTrustAnchor⟩
  match search input (options.maxPathLength - 1) endEntity start with
  | (some anchor, s) => .ok ⟨anchor, s.used⟩
  | (none, s) => .error s.best

/-- Validate a path and check that the certificate authenticates `serverName`. -/
def verifyPeerCertificate (ring : Ring) (endEntity : Certificate)
    (intermediates : List Certificate) (anchors : List TrustAnchor) (serverName : ServerName)
    (options : PathOptions) : Except PathError VerifiedPath := do
  mapErr PathError.name (verifyServerName endEntity serverName)
  validatePath ring endEntity intermediates anchors options

end RustyTls
