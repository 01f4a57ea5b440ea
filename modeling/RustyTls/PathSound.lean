import Mathlib.Data.List.Chain
import RustyTls.Path

/-!
# RustyTls.PathSound

What a validated path means.

`ValidChain` states the conditions of RFC 5280 §6.1 on a finished chain, with no search in
it: names and signatures chain up to the anchor, every certificate is in date and understood,
every CA may act as one, no path length is exceeded and every name is within the
constraints above it. A path that is returned is such a chain.

The checks come first, each read as the condition it enforces. The search is then one
invariant, `Stack`: at every call the indices in use spell a chain from the end-entity
certificate to the current one. A call that fails gives the stack back as it was
(`search_none_used`), so a later branch starts from the same chain; a call that succeeds
leaves the stack of the path it found (`search_some_sound`).
-/

namespace RustyTls

open Core Der

/-! ### The conditions on a chain -/

/-- `parent` issued `child`: the names chain and the signature verifies. -/
def IssuedBy (ring : Ring) (child parent : Certificate) : Prop :=
  child.issuer = parent.subject ∧
    verifySignature ring child parent.subjectPublicKeyInfo = .ok ()

/-- `anchor` issued `child`. -/
def AnchoredBy (ring : Ring) (child : Certificate) (anchor : TrustAnchor) : Prop :=
  child.issuer = anchor.subject ∧ verifySignature ring child anchor.publicKey = .ok ()

/-- Every DNS name and IP address a certificate lists is outside every excluded subtree, and
inside a permitted one if there is a permitted one of its type. -/
def Respects (constraints : Constraints) (certificate : Certificate) : Prop :=
  ∀ name, .ok name ∈ certificate.extensions.subjectAltNames →
    (∀ subtree ∈ constraints.excluded, subtree.contains name = false) ∧
    ((∃ subtree ∈ constraints.permitted, subtree.constrains name = true) →
      ∃ subtree ∈ constraints.permitted, subtree.contains name = true)

/-- A `NameConstraints` body applied to the certificates below it, from the end-entity
certificate up: it parses, and every certificate respects it but the self-issued ones that
are not the end-entity certificate. -/
def Constrains (body : Bytes) (below : List Certificate) : Prop :=
  ∃ constraints, parseConstraints body = .ok constraints ∧
    ∀ j certificate, below[j]? = some certificate →
      (certificate.isSelfIssued = true → j = 0) → Respects constraints certificate

/-- The end-entity certificate permits a required purpose. -/
def PermitsEku (certificate : Certificate) (required : Option ObjectIdentifier) : Prop :=
  ∀ oid, required = some oid → certificate.extensions.hasExtendedKeyUsage = true →
    ∃ purpose, .ok purpose ∈ certificate.extensions.extendedKeyUsage ∧
      (purpose = oid ∨ purpose = Oid.ekuAny)

/-- How many certificates of a list are not self-issued. -/
def stepsIn (certificates : List Certificate) : Nat :=
  (certificates.filter fun certificate => !certificate.isSelfIssued).length

/-- The conditions of RFC 5280 §6.1 on a chain: the end-entity certificate, the CAs above it
in order, and the anchor that issued the last. -/
structure ValidChain (ring : Ring) (options : PathOptions) (endEntity : Certificate)
    (cas : List Certificate) (anchor : TrustAnchor) : Prop where
  linked : (endEntity :: cas).IsChain (IssuedBy ring)
  anchored : ∀ top ∈ (endEntity :: cas).getLast?, AnchoredBy ring top anchor
  short : cas.length + 1 ≤ options.maxPathLength
  inDate : ∀ c ∈ endEntity :: cas,
    c.validity.notBefore ≤ options.time ∧ options.time ≤ c.validity.notAfter
  understood : ∀ c ∈ endEntity :: cas, c.extensions.unhandledCritical = []
  isCa : ∀ c ∈ cas, ∃ b, c.extensions.basicConstraints = some b ∧ b.isCa = true
  certSign : ∀ c ∈ cas, ∀ usage, c.extensions.keyUsage = some usage → usage.keyCertSign = true
  pathLen : ∀ p c limit, cas[p]? = some c → pathLenConstraint c = some limit →
    stepsIn (cas.take p) ≤ limit
  eku : PermitsEku endEntity options.requiredEku
  anchorNames : ∀ body, anchor.nameConstraints = some body → Constrains body (endEntity :: cas)
  caNames : ∀ p ca body, cas[p]? = some ca → ca.extensions.nameConstraints = some body →
    Constrains body ((endEntity :: cas).take (p + 1))

/-! ### The checks on one certificate -/

theorem checkValidity_eq_ok {certificate : Certificate} {time : Int} :
    checkValidity certificate time = .ok () ↔
      certificate.validity.notBefore ≤ time ∧ time ≤ certificate.validity.notAfter := by
  simp only [checkValidity, bind_eq_ok, refuse_eq_ok, Int.not_lt]
  constructor
  · intro h
    obtain ⟨-, hbefore, hafter⟩ := h
    exact ⟨hbefore, hafter⟩
  · intro h
    obtain ⟨hbefore, hafter⟩ := h
    exact ⟨(), hbefore, hafter⟩

theorem checkNoUnhandledCritical_eq_ok {certificate : Certificate} :
    checkNoUnhandledCritical certificate = .ok () ↔
      certificate.extensions.unhandledCritical = [] := by
  unfold checkNoUnhandledCritical
  cases certificate.extensions.unhandledCritical <;> simp

theorem checkCa_ok {certificate : Certificate} {time : Int}
    (h : checkCa certificate time = .ok ()) :
    (certificate.validity.notBefore ≤ time ∧ time ≤ certificate.validity.notAfter) ∧
    certificate.extensions.unhandledCritical = [] ∧
    (∃ b, certificate.extensions.basicConstraints = some b ∧ b.isCa = true) ∧
    ∀ usage, certificate.extensions.keyUsage = some usage → usage.keyCertSign = true := by
  simp only [checkCa, bind_eq_ok, refuse_eq_ok] at h
  obtain ⟨_, hdate, _, hcrit, _, hca, hsign⟩ := h
  refine ⟨checkValidity_eq_ok.mp hdate, checkNoUnhandledCritical_eq_ok.mp hcrit, ?_, ?_⟩
  · cases hb : certificate.extensions.basicConstraints with
    | none => simp [hb] at hca
    | some b => exact ⟨b, rfl, by simpa [hb] using hca⟩
  · intro usage husage
    simpa [husage] using hsign

theorem checkPurposes_ok {required : ObjectIdentifier}
    {purposes : List (Except X509Error ObjectIdentifier)}
    (h : checkPurposes required purposes = .ok ()) :
    ∃ purpose, .ok purpose ∈ purposes ∧ (purpose = required ∨ purpose = Oid.ekuAny) := by
  induction purposes with
  | nil => simp [checkPurposes] at h
  | cons entry rest ih =>
      cases entry with
      | error e => simp [checkPurposes] at h
      | ok purpose =>
          rw [checkPurposes] at h
          split at h
          · next hmatch => exact ⟨purpose, by simp, hmatch⟩
          · obtain ⟨found, hmem, hfound⟩ := ih h
            exact ⟨found, by simp [hmem], hfound⟩

theorem checkEku_ok {certificate : Certificate} {required : Option ObjectIdentifier}
    (h : checkEku certificate required = .ok ()) : PermitsEku certificate required := by
  intro oid heq
  obtain rfl := heq
  intro hpresent
  simp only [checkEku, hpresent, if_true] at h
  exact checkPurposes_ok h

/-! ### Path length -/

theorem stepsIn_reverse (certificates : List Certificate) :
    stepsIn certificates.reverse = stepsIn certificates := by
  simp [stepsIn]

/-- The running minimum says what it should: what is left of the budget covers everything
below, and each `pathLenConstraint` covers everything below its own certificate. -/
theorem foldlM_pathLengthStep {chain : List Certificate} {remaining : Nat} :
    (∃ left, chain.foldlM pathLengthStep remaining = .ok left) ↔
      stepsIn chain ≤ remaining ∧
      ∀ above c below limit, chain = above ++ c :: below →
        pathLenConstraint c = some limit → stepsIn below ≤ limit := by
  -- By induction from the anchor down, for every budget.
  induction chain generalizing remaining with
  | nil => simp [stepsIn]
  | cons c rest ih =>
      have hsplit : (∀ above x below limit, c :: rest = above ++ x :: below →
          pathLenConstraint x = some limit → stepsIn below ≤ limit) ↔
          (∀ limit, pathLenConstraint c = some limit → stepsIn rest ≤ limit) ∧
          ∀ above x below limit, rest = above ++ x :: below →
            pathLenConstraint x = some limit → stepsIn below ≤ limit := by
        constructor
        · intro h
          refine ⟨fun limit => h [] c rest limit rfl, fun above x below limit hrest => ?_⟩
          exact h (c :: above) x below limit (by simp [hrest])
        · intro h
          obtain ⟨hhead, htail⟩ := h
          intro above x below limit heq
          cases above with
          | nil =>
              obtain ⟨rfl, rfl⟩ : c = x ∧ rest = below := by simpa using heq
              exact hhead limit
          | cons a above =>
              obtain ⟨rfl, hrest⟩ : c = a ∧ rest = above ++ x :: below := by simpa using heq
              exact htail above x below limit hrest
      have hsteps : stepsIn (c :: rest) =
          (if c.isSelfIssued then 0 else 1) + stepsIn rest := by
        unfold stepsIn
        cases hself : c.isSelfIssued <;> simp [hself, Nat.add_comm]
      rw [hsplit, hsteps, List.foldlM_cons]
      simp only [bind_eq_ok, pathLengthStep, refuse_eq_ok]
      cases hself : c.isSelfIssued <;> cases hlen : pathLenConstraint c <;>
        simp [ih] <;> grind

/-- A split of a reversed list is an index of the list. -/
theorem split_reverse {α : Type} {xs above below : List α} {x : α}
    (h : xs.reverse = above ++ x :: below) :
    xs[below.length]? = some x ∧ below = (xs.take below.length).reverse := by
  have hxs : xs = below.reverse ++ x :: above.reverse := by
    rw [← List.reverse_reverse xs, h]
    simp
  constructor
  · rw [hxs, List.getElem?_append_right (by simp)]
    simp
  · have htake : xs.take below.length = below.reverse := by
      rw [hxs, List.take_left' (by simp)]
    rw [htake, List.reverse_reverse]

theorem reverse_split {α : Type} {xs : List α} {p : Nat} (hp : p < xs.length) :
    xs.reverse = (xs.drop (p + 1)).reverse ++ xs[p] :: (xs.take p).reverse := by
  conv_lhs => rw [← List.take_append_drop (p + 1) xs]
  rw [List.reverse_append, List.take_succ_eq_append_getElem hp]
  simp

/-- The same for a path given from the end entity up, by the positions of its certificates: the
walk from the anchor down meets them in reverse. -/
theorem foldlM_pathLengthStep_reverse {intermediates : List Certificate} {used : List Nat}
    {remaining : Nat} :
    (∃ left, (certificatesAt intermediates used.reverse).foldlM pathLengthStep remaining
      = .ok left) ↔
      stepsIn (certificatesAt intermediates used) ≤ remaining ∧
      ∀ p c limit, (certificatesAt intermediates used)[p]? = some c →
        pathLenConstraint c = some limit →
        stepsIn ((certificatesAt intermediates used).take p) ≤ limit := by
  have hrev : certificatesAt intermediates used.reverse
      = (certificatesAt intermediates used).reverse := List.filterMap_reverse
  rw [foldlM_pathLengthStep, hrev, stepsIn_reverse]
  refine and_congr_right fun _ => ⟨fun h p c limit hc hlimit => ?_,
    fun h above c below limit hsplit hlimit => ?_⟩
  · obtain ⟨hp, rfl⟩ := List.getElem?_eq_some_iff.mp hc
    rw [← stepsIn_reverse]
    exact h _ _ _ limit (reverse_split hp) hlimit
  · obtain ⟨hget, hbelow⟩ := split_reverse hsplit
    rw [hbelow, stepsIn_reverse]
    exact h below.length c limit hget hlimit

theorem checkPathLength_eq_ok {intermediates : List Certificate} {used : List Nat}
    (h : checkPathLength intermediates used = .ok ()) :
    ∀ p c limit, (certificatesAt intermediates used)[p]? = some c →
      pathLenConstraint c = some limit →
      stepsIn ((certificatesAt intermediates used).take p) ≤ limit := by
  simp only [checkPathLength, bind_eq_ok] at h
  obtain ⟨left, hfold, -⟩ := h
  exact (foldlM_pathLengthStep_reverse.mp ⟨left, hfold⟩).2

/-! ### Name constraints -/

theorem checkEntry_eq_ok {constraints : Constraints} {entry : Except X509Error GeneralName} :
    checkEntry constraints entry = .ok () ↔ ∀ name, entry = .ok name →
      (∀ subtree ∈ constraints.excluded, subtree.contains name = false) ∧
      ((∃ subtree ∈ constraints.permitted, subtree.constrains name = true) →
        ∃ subtree ∈ constraints.permitted, subtree.contains name = true) := by
  cases entry with
  | error e => simp [checkEntry]
  | ok name => simp [checkEntry, bind_eq_ok, refuse_eq_ok]

theorem checkOne_eq_ok {certificate : Certificate} {constraints : Constraints} :
    checkOne certificate constraints = .ok () ↔ Respects constraints certificate := by
  simp only [checkOne, forM_eq_ok, checkEntry_eq_ok, Respects]
  constructor
  · intro h name hname
    exact h _ hname name rfl
  · intro h entry hentry name heq
    obtain rfl := heq
    exact h name hentry

/-- The loop over a CA's subordinates, from the CA down. -/
theorem checkSubordinates_eq_ok {constraints : Constraints} {chain : List Certificate} :
    checkSubordinates constraints chain = .ok () ↔
      ∀ above c below, chain = above ++ c :: below →
        (c.isSelfIssued = true → below = []) → Respects constraints c := by
  induction chain with
  | nil => simp [checkSubordinates]
  | cons c rest ih =>
      have hskip : checkSubordinate constraints c rest.isEmpty = .ok () ↔
          ((c.isSelfIssued = true → rest = []) → Respects constraints c) := by
        rw [← checkOne_eq_ok, checkSubordinate]
        cases c.isSelfIssued <;> cases rest <;> simp
      simp only [checkSubordinates, bind_eq_ok]
      constructor
      · intro h
        obtain ⟨_, hc, hrest⟩ := h
        intro above x below heq hself
        cases above with
        | nil =>
            obtain ⟨rfl, rfl⟩ : c = x ∧ rest = below := by simpa using heq
            exact hskip.mp hc hself
        | cons a above =>
            obtain ⟨rfl, hsplit⟩ : c = a ∧ rest = above ++ x :: below := by simpa using heq
            exact ih.mp hrest above x below hsplit hself
      · intro h
        refine ⟨(), hskip.mpr (h [] c rest rfl), ih.mpr ?_⟩
        intro above x below hsplit
        exact h (c :: above) x below (by simp [hsplit])

/-- A body checked against a chain from the CA down constrains the chain from the end-entity
certificate up. -/
theorem checkNameConstraintsBody_ok {body : Bytes} {below : List Certificate}
    (h : checkNameConstraintsBody body below.reverse = .ok ()) : Constrains body below := by
  simp only [checkNameConstraintsBody, bind_eq_ok] at h
  obtain ⟨constraints, hparse, hcheck⟩ := h
  refine ⟨constraints, hparse, ?_⟩
  intro j certificate hj hself
  obtain ⟨hlt, rfl⟩ := List.getElem?_eq_some_iff.mp hj
  have hsplit : below.reverse
      = (below.drop (j + 1)).reverse ++ below[j] :: (below.take j).reverse := by
    conv_lhs => rw [← List.take_append_drop (j + 1) below]
    rw [List.reverse_append, List.take_succ_eq_append_getElem hlt]
    simp
  refine checkSubordinates_eq_ok.mp hcheck _ _ _ hsplit ?_
  intro hissued
  simp [hself hissued]

theorem checkChainConstraints_ok {chain : List Certificate}
    (h : checkChainConstraints chain = .ok ()) :
    ∀ above c below, chain = above ++ c :: below → below ≠ [] →
      checkNameConstraints c below = .ok () := by
  induction chain with
  | nil => simp
  | cons x rest ih =>
      intro above c below heq hne
      cases rest with
      | nil =>
          -- A single certificate is the end-entity one, which constrains nothing.
          cases above with
          | nil => simp_all
          | cons a above => simp at heq
      | cons y rest =>
          simp only [checkChainConstraints, bind_eq_ok, mapErr_eq_ok] at h
          obtain ⟨_, hx, hrest⟩ := h
          cases above with
          | nil =>
              obtain ⟨rfl, rfl⟩ : x = c ∧ y :: rest = below := by simpa using heq
              exact hx
          | cons a above =>
              obtain ⟨rfl, hsplit⟩ : x = a ∧ y :: rest = above ++ c :: below := by
                simpa using heq
              exact ih hrest above c below hsplit hne

/-! ### Finishing a path -/

variable {input : PathInput}

/-- The chain a stack of indices spells, from the end-entity certificate up. -/
def PathInput.chain (input : PathInput) (used : List Nat) : List Certificate :=
  input.endEntity :: certificatesAt input.intermediates used

theorem chain_reverse (used : List Nat) :
    certificatesAt input.intermediates used.reverse ++ [input.endEntity]
      = (input.chain used).reverse := by
  have hrev : certificatesAt input.intermediates used.reverse
      = (certificatesAt input.intermediates used).reverse := List.filterMap_reverse
  simp [PathInput.chain, hrev]

/-- What `finalize` establishes of the chain it is called on. -/
theorem finalize_ok {anchor : TrustAnchor} {used : List Nat}
    (h : finalize anchor input.endEntity input.intermediates used = .ok ()) :
    (∀ p c limit, (certificatesAt input.intermediates used)[p]? = some c →
      pathLenConstraint c = some limit →
      stepsIn ((certificatesAt input.intermediates used).take p) ≤ limit) ∧
    (∀ body, anchor.nameConstraints = some body → Constrains body (input.chain used)) ∧
    ∀ p ca body, (certificatesAt input.intermediates used)[p]? = some ca →
      ca.extensions.nameConstraints = some body →
      Constrains body ((input.chain used).take (p + 1)) := by
  simp only [finalize, bind_eq_ok, chain_reverse] at h
  obtain ⟨_, hlen, _, hanchor, hcas⟩ := h
  refine ⟨checkPathLength_eq_ok hlen, ?_, ?_⟩
  · intro body hbody
    simp only [checkAnchorConstraints, hbody, mapErr_eq_ok] at hanchor
    exact checkNameConstraintsBody_ok hanchor
  · intro p ca body hca hbody
    have hca' : (input.chain used)[p + 1]? = some ca := by simpa [PathInput.chain] using hca
    obtain ⟨hlt, hget⟩ := List.getElem?_eq_some_iff.mp hca'
    have hsplit : (input.chain used).reverse
        = ((input.chain used).drop (p + 2)).reverse ++
          ca :: ((input.chain used).take (p + 1)).reverse := by
      conv_lhs => rw [← List.take_append_drop (p + 2) (input.chain used)]
      rw [List.reverse_append, List.take_succ_eq_append_getElem hlt, hget]
      simp
    have hne : ((input.chain used).take (p + 1)).reverse ≠ [] := by simp [PathInput.chain]
    have hcheck := checkChainConstraints_ok hcas _ _ _ hsplit hne
    simp only [checkNameConstraints, hbody] at hcheck
    exact checkNameConstraintsBody_ok hcheck

/-! ### The search -/

/-- The invariant of the search: the indices in use are distinct and spell a chain of CAs,
each the issuer of the one before, from the end-entity certificate to `current`. -/
structure Stack (input : PathInput) (used : List Nat) (current : Certificate) : Prop where
  nodup : used.Nodup
  inRange : used.map (input.intermediates[·]?)
    = (certificatesAt input.intermediates used).map some
  linked : (input.chain used).IsChain (IssuedBy input.ring)
  top : (input.chain used).getLast? = some current
  cas : ∀ c ∈ certificatesAt input.intermediates used, checkCa c input.options.time = .ok ()

theorem stack_empty (input : PathInput) : Stack input [] input.endEntity where
  nodup := List.nodup_nil
  inRange := rfl
  linked := .singleton _
  top := rfl
  cas := by simp [certificatesAt]

/-- Pushing a checked issuer of the current certificate keeps the invariant. -/
theorem stack_push {used : List Nat} {current candidate : Certificate} {index : Nat}
    (hs : Stack input used current) (hget : input.intermediates[index]? = some candidate)
    (hfresh : index ∉ used) (hissued : IssuedBy input.ring current candidate)
    (hca : checkCa candidate input.options.time = .ok ()) :
    Stack input (used ++ [index]) candidate := by
  have hat : certificatesAt input.intermediates (used ++ [index])
      = certificatesAt input.intermediates used ++ [candidate] := by
    simp [certificatesAt, hget]
  have hchain : input.chain (used ++ [index]) = input.chain used ++ [candidate] := by
    simp [PathInput.chain, hat]
  refine ⟨?_, ?_, ?_, ?_, ?_⟩
  · rw [List.nodup_append]
    refine ⟨hs.nodup, by simp, ?_⟩
    intro a ha b hb
    obtain rfl : b = index := by simpa using hb
    exact fun heq => hfresh (heq ▸ ha)
  · simp only [hat, List.map_append, hs.inRange, List.map_cons, List.map_nil, hget]
  · rw [hchain]
    refine List.isChain_append.mpr ⟨hs.linked, .singleton _, ?_⟩
    intro x hx y hy
    rw [hs.top] at hx
    obtain rfl : current = x := by simpa using hx
    obtain rfl : candidate = y := by simpa using hy
    exact hissued
  · rw [hchain]
    simp
  · intro c hc
    rw [hat, List.mem_append, List.mem_singleton] at hc
    rcases hc with hc | rfl
    · exact hs.cas c hc
    · exact hca

/-- A path the search may return: the stack reaches a certificate that `anchor` issued, and
the whole-path rules hold of it. -/
structure Reached (input : PathInput) (anchor : Nat) (used : List Nat) : Prop where
  intro ::
  ends : ∃ a top, input.anchors[anchor]? = some a ∧ Stack input used top ∧
    AnchoredBy input.ring top a ∧ finalize a input.endEntity input.intermediates used = .ok ()

@[simp] theorem record_used (s : SearchState) (e : PathError) : (s.record e).used = s.used := by
  unfold SearchState.record
  split <;> rfl

@[simp] theorem spend_used (s : SearchState) : s.spend.used = s.used := rfl

/-- The anchors' loop never touches the stack, and finds only anchors that issued the current
certificate and finish a path. -/
theorem searchAnchors_spec (current : Certificate) (as : List (TrustAnchor × Nat))
    (s : SearchState) :
    (searchAnchors input current as s).2.used = s.used ∧
    ∀ index, (searchAnchors input current as s).1 = .found index →
      ∃ a, (a, index) ∈ as ∧ AnchoredBy input.ring current a ∧
        finalize a input.endEntity input.intermediates s.used = .ok () := by
  induction as generalizing s with
  | nil => simp [searchAnchors]
  | cons entry rest ih =>
      obtain ⟨anchor, index⟩ := entry
      -- Going on with a state that has the same stack.
      have hrest : ∀ s', s'.used = s.used →
          (searchAnchors input current rest s').2.used = s.used ∧
          ∀ i, (searchAnchors input current rest s').1 = .found i →
            ∃ a, (a, i) ∈ (anchor, index) :: rest ∧ AnchoredBy input.ring current a ∧
              finalize a input.endEntity input.intermediates s.used = .ok () := by
        intro s' hused
        obtain ⟨hkeep, hfound⟩ := ih s'
        refine ⟨hkeep.trans hused, fun i hi => ?_⟩
        obtain ⟨a, hmem, hanch, hfin⟩ := hfound i hi
        exact ⟨a, List.mem_cons_of_mem _ hmem, hanch, hused ▸ hfin⟩
      unfold searchAnchors
      split
      · exact hrest s rfl
      · next hname =>
          split
          · simp
          · split
            · exact hrest _ (by simp)
            · next hverify =>
                split
                · next hfin =>
                    refine ⟨rfl, fun i hi => ?_⟩
                    obtain rfl : index = i := by simpa using hi
                    have hname' : current.issuer = anchor.subject := by
                      simpa [eq_comm] using hname
                    exact ⟨anchor, by simp, ⟨hname', hverify⟩, hfin⟩
                · exact hrest _ (by simp)

/-- What is asked of the recursive call: from a stack that reaches `current`, it gives the
stack back when it fails, and leaves a path at most `deeper` certificates longer when it
succeeds. -/
def SearchOk (input : PathInput) (deeper : Nat) (current : Certificate) (s : SearchState)
    (result : Option Nat × SearchState) : Prop :=
  match result with
  | (none, s') => s'.used = s.used
  | (some anchor, s') =>
      Stack input s.used current →
        Reached input anchor s'.used ∧ s'.used.length ≤ s.used.length + deeper

theorem searchCandidates_ok {deeper : Nat} (current : Certificate)
    {recurse : Certificate → SearchState → Option Nat × SearchState}
    (hrec : ∀ c s, SearchOk input deeper c s (recurse c s)) :
    ∀ (candidates : List (Certificate × Nat)) (s : SearchState),
      (∀ c i, (c, i) ∈ candidates → input.intermediates[i]? = some c) →
      SearchOk input (deeper + 1) current s
        (searchCandidates input current recurse candidates s) := by
  intro candidates
  induction candidates with
  | nil => intro s _; exact rfl
  | cons entry rest ih =>
      intro s hget
      obtain ⟨candidate, index⟩ := entry
      have hget' : ∀ c i, (c, i) ∈ rest → input.intermediates[i]? = some c :=
        fun c i hmem => hget c i (List.mem_cons_of_mem _ hmem)
      have hgo : ∀ s', s'.used = s.used → SearchOk input (deeper + 1) current s
          (searchCandidates input current recurse rest s') := by
        intro s' hused
        have := ih s' hget'
        unfold SearchOk at this ⊢
        rw [hused] at this
        exact this
      unfold searchCandidates
      split
      · exact hgo s rfl
      · next hfresh =>
          split
          · exact hgo s rfl
          · next hname =>
              split
              · exact hgo _ (by simp)
              · next hca =>
                  split
                  · simp [SearchOk]
                  · split
                    · exact hgo _ (by simp)
                    · next hverify =>
                        have hcall := hrec candidate { s.spend with used := s.used ++ [index] }
                        split
                        · next anchor s' hres =>
                            -- The branch succeeded: the pushed stack is the one it extends.
                            rw [hres] at hcall
                            intro hstack
                            have hissued : IssuedBy input.ring current candidate :=
                              ⟨by simpa [eq_comm] using hname, hverify⟩
                            have hpush := stack_push hstack
                              (hget candidate index (by simp)) hfresh hissued hca
                            obtain ⟨hreach, hlen⟩ := hcall hpush
                            refine ⟨hreach, ?_⟩
                            simp only [List.length_append, List.length_singleton] at hlen
                            omega
                        · next s' hres =>
                            -- It failed: popping takes the candidate off again.
                            rw [hres] at hcall
                            have hused : s'.used = s.used ++ [index] := hcall
                            exact hgo _ (by simp [hused])

/-- What the anchors' loop leaves decides a call, except when it asks to go on. -/
theorem searchAnchors_ok (deeper : Nat) {current : Certificate} {s s' : SearchState} {flow : Flow}
    (h : searchAnchors input current input.anchors.zipIdx s = (flow, s')) :
    s'.used = s.used ∧
    ∀ anchor, flow = .found anchor →
      SearchOk input deeper current s (some anchor, s') := by
  obtain ⟨hused, hfound⟩ := searchAnchors_spec current input.anchors.zipIdx s
  rw [h] at hused hfound
  refine ⟨hused, ?_⟩
  intro anchor hflow hstack
  obtain ⟨a, hmem, hanch, hfin⟩ := hfound anchor hflow
  have hget : input.anchors[anchor]? = some a := List.mem_zipIdx_iff_getElem?.mp hmem
  have hused' : s'.used = s.used := hused
  refine ⟨⟨a, current, hget, ?_, hanch, ?_⟩, ?_⟩
  · rw [hused']; exact hstack
  · rw [hused']; exact hfin
  · rw [hused']; omega

theorem search_ok (input : PathInput) (deeper : Nat) : ∀ (current : Certificate) (s : SearchState),
    SearchOk input deeper current s (search input deeper current s) := by
  induction deeper with
  | zero =>
      intro current s
      rw [search]
      rcases hres : searchAnchors input current input.anchors.zipIdx s with ⟨flow, s'⟩
      obtain ⟨hused, hfound⟩ := searchAnchors_ok 0 hres
      cases flow with
      | found anchor => exact hfound anchor rfl
      | stop => exact hused
      | next => exact hused
  | succ deeper ih =>
      intro current s
      rw [search]
      rcases hres : searchAnchors input current input.anchors.zipIdx s with ⟨flow, s'⟩
      obtain ⟨hused, hfound⟩ := searchAnchors_ok (deeper + 1) hres
      cases flow with
      | found anchor => exact hfound anchor rfl
      | stop => exact hused
      | next =>
          have hgo := searchCandidates_ok current ih input.intermediates.zipIdx s'
            (fun c i hmem => List.mem_zipIdx_iff_getElem?.mp hmem)
          unfold SearchOk at hgo ⊢
          rw [hused] at hgo
          exact hgo

/-! ### The main result -/

/-- A reached path is a valid chain, given the end-entity certificate's own checks. -/
theorem reached_validChain {anchor : Nat} {used : List Nat} (h : Reached input anchor used)
    (hdate : checkValidity input.endEntity input.options.time = .ok ())
    (hcrit : checkNoUnhandledCritical input.endEntity = .ok ())
    (heku : checkEku input.endEntity input.options.requiredEku = .ok ())
    (hlen : used.length + 1 ≤ input.options.maxPathLength) :
    ∃ a cas, input.anchors[anchor]? = some a ∧
      used.map (input.intermediates[·]?) = cas.map some ∧ used.Nodup ∧
      ValidChain input.ring input.options input.endEntity cas a := by
  obtain ⟨⟨a, top, hget, hstack, hanch, hfin⟩⟩ := h
  obtain ⟨hpath, hanchorNames, hcaNames⟩ := finalize_ok hfin
  have hcas : ∀ c ∈ certificatesAt input.intermediates used,
      checkCa c input.options.time = .ok () := hstack.cas
  have hlength : (certificatesAt input.intermediates used).length = used.length := by
    have := congrArg List.length hstack.inRange
    simpa using this.symm
  refine ⟨a, certificatesAt input.intermediates used, hget, hstack.inRange, hstack.nodup, ?_⟩
  exact {
    linked := hstack.linked
    anchored := by
      intro x hx
      have hlast : (input.chain used).getLast? = some x := by simpa [PathInput.chain] using hx
      obtain rfl : top = x := by simpa [hstack.top] using hlast
      exact hanch
    short := by rw [hlength]; exact hlen
    inDate := by
      intro c hc
      rcases List.mem_cons.mp hc with rfl | hc
      · exact checkValidity_eq_ok.mp hdate
      · exact (checkCa_ok (hcas c hc)).1
    understood := by
      intro c hc
      rcases List.mem_cons.mp hc with rfl | hc
      · exact checkNoUnhandledCritical_eq_ok.mp hcrit
      · exact (checkCa_ok (hcas c hc)).2.1
    isCa := fun c hc => (checkCa_ok (hcas c hc)).2.2.1
    certSign := fun c hc => (checkCa_ok (hcas c hc)).2.2.2
    pathLen := hpath
    eku := checkEku_ok heku
    anchorNames := hanchorNames
    caNames := hcaNames }

/-- What `validatePath` accepts: the anchor and the intermediates it names exist and are
pairwise distinct, and they form a valid chain. -/
theorem validatePath_ok {ring : Ring} {endEntity : Certificate}
    {intermediates : List Certificate} {anchors : List TrustAnchor} {options : PathOptions}
    {path : VerifiedPath}
    (h : validatePath ring endEntity intermediates anchors options = .ok path) :
    ∃ anchor cas, anchors[path.anchor]? = some anchor ∧
      path.intermediates.map (intermediates[·]?) = cas.map some ∧ path.intermediates.Nodup ∧
      ValidChain ring options endEntity cas anchor := by
  simp only [validatePath, bind_eq_ok, refuse_eq_ok] at h
  obtain ⟨_, hdate, _, hcrit, _, heku, _, hmax, h⟩ := h
  have hsearch := search_ok ⟨ring, endEntity, intermediates, anchors, options⟩
    (options.maxPathLength - 1) endEntity ⟨[], options.maxSignatureChecks, .noPathToTrustAnchor⟩
  split at h
  · next a s hres =>
      rw [hres] at hsearch
      obtain rfl : VerifiedPath.mk a s.used = path := by simpa using h
      obtain ⟨hreach, hlen⟩ := hsearch (stack_empty _)
      refine reached_validChain hreach hdate hcrit heku ?_
      simp only [List.length_nil] at hlen
      show s.used.length + 1 ≤ options.maxPathLength
      omega
  · exact absurd h (by simp)

/-- Soundness of path validation. A returned path names an anchor and pairwise distinct
intermediates that exist, is no longer than allowed, and is a valid chain: with `c₀` the
end-entity certificate and `cⱼ` the intermediates, names and signatures chain up to the
anchor, every certificate is in date and has no unhandled critical extension, every CA may
sign, no path length is exceeded, the end-entity certificate permits the required usage, and
all names are within the constraints of the anchor and of every CA above them. -/
theorem validatePath_sound (ring : Ring) (endEntity : Certificate)
    (intermediates : List Certificate) (anchors : List TrustAnchor) (options : PathOptions)
    (path : VerifiedPath)
    (h : validatePath ring endEntity intermediates anchors options = .ok path) :
    (∀ i ∈ path.intermediates, i < intermediates.length) ∧ path.intermediates.Nodup ∧
    path.intermediates.length + 1 ≤ options.maxPathLength ∧
    ∃ anchor cas, anchors[path.anchor]? = some anchor ∧
      path.intermediates.map (intermediates[·]?) = cas.map some ∧
      ValidChain ring options endEntity cas anchor := by
  obtain ⟨anchor, cas, hanchor, hcas, hnodup, hvalid⟩ := validatePath_ok h
  have hlength : path.intermediates.length = cas.length := by
    simpa using congrArg List.length hcas
  refine ⟨?_, hnodup, hlength ▸ hvalid.short, anchor, cas, hanchor, hcas, hvalid⟩
  intro i hi
  have hmem : intermediates[i]? ∈ cas.map some := by
    rw [← hcas]
    exact List.mem_map_of_mem hi
  obtain ⟨c, -, hc⟩ := List.mem_map.mp hmem
  exact (List.getElem?_eq_some_iff.mp hc.symm).1

/-- A certificate signed under `Ring.sample` by the key `issuerKey`, with an Ed25519 key. -/
def sampleCertificate (issuer subject key issuerKey : Bytes) (extensions : Extensions) :
    Certificate where
  tbsDer := issuer ++ subject ++ key
  version := .v3
  serial := [1]
  signatureAlgorithm := ⟨Oid.ed25519, none, []⟩
  issuer := issuer
  validity := ⟨0, 100⟩
  subject := subject
  subjectPublicKeyInfo := ⟨⟨Oid.ed25519, none, []⟩, key, []⟩
  extensions := extensions
  signature := checksum 32 (issuerKey ++ (issuer ++ subject ++ key))

/-- A leaf for `a.b`, an intermediate permitted to issue under `b`, and an anchor. -/
theorem validatePath_sound_sample :
    let leaf := sampleCertificate [2] [3] [30] [20]
      { subjectAltName := some [0x82, 3, 97, 46, 98] }
    let ca := sampleCertificate [1] [2] [20] [10]
      { basicConstraints := some ⟨true, some 0⟩
        nameConstraints := some [0xa0, 5, 0x30, 3, 0x82, 1, 98] }
    let anchor : TrustAnchor := ⟨[1], ⟨⟨Oid.ed25519, none, []⟩, [10], []⟩, none⟩
    validatePath Ring.sample leaf [leaf, ca] [anchor] { time := 50 } = .ok ⟨0, [1]⟩ ∧
    ∃ anchor' cas, [anchor][0]? = some anchor' ∧
      [1].map ([leaf, ca][·]?) = cas.map some ∧
      ValidChain Ring.sample { time := 50 } leaf cas anchor' := by
  have hrun := validatePath_sound Ring.sample
    (sampleCertificate [2] [3] [30] [20] { subjectAltName := some [0x82, 3, 97, 46, 98] })
    [sampleCertificate [2] [3] [30] [20] { subjectAltName := some [0x82, 3, 97, 46, 98] },
      sampleCertificate [1] [2] [20] [10]
        { basicConstraints := some ⟨true, some 0⟩
          nameConstraints := some [0xa0, 5, 0x30, 3, 0x82, 1, 98] }]
    [⟨[1], ⟨⟨Oid.ed25519, none, []⟩, [10], []⟩, none⟩] { time := 50 } ⟨0, [1]⟩ rfl
  exact ⟨rfl, hrun.2.2.2⟩

end RustyTls
