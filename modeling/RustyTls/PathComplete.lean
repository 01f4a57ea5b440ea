import Mathlib.Data.List.FinRange
import Mathlib.Data.List.Perm.Subperm
import RustyTls.PathSound

/-!
# RustyTls.PathComplete

What a failed path search means.

`HasPath` says that some of the intermediates, each used once, form a valid path to one of the
anchors. A search that never finds its budget at zero decides it
(`validate_isOk_iff`), so neither the order of the certificates nor ones that are not
needed matter.

A search that does run out gives up, and `starvation` is the error it held at that moment.
Everything after that moment leaves no trace (`searchCandidates_spent`).
-/

namespace RustyTls

open Core Der

/-! ### The checks, from the conditions -/

/-- The purposes a certificate lists, up to a malformed one, include a required one. -/
def ListsEku (certificate : Certificate) (required : Option ObjectIdentifier) : Prop :=
  ∀ oid, required = some oid → certificate.extensions.hasExtendedKeyUsage = true →
    ∃ (front : List ObjectIdentifier) (purpose : ObjectIdentifier) (rest : List _),
      certificate.extensions.extendedKeyUsage = front.map .ok ++ .ok purpose :: rest ∧
      (purpose = oid ∨ purpose = Oid.ekuAny)

theorem checkPurposes_eq_ok {required : ObjectIdentifier}
    {purposes : List (Except X509Error ObjectIdentifier)} :
    checkPurposes required purposes = .ok () ↔
      ∃ (front : List ObjectIdentifier) (purpose : ObjectIdentifier) (rest : List _),
        purposes = front.map .ok ++ .ok purpose :: rest ∧ (purpose = required ∨ purpose = Oid.ekuAny) := by
  induction purposes with
  | nil => simp [checkPurposes]
  | cons entry tail ih =>
      cases entry with
      | error e =>
          constructor
          · intro h
            simp [checkPurposes] at h
          · intro h
            obtain ⟨front, purpose, rest, heq, -⟩ := h
            cases front <;> simp at heq
      | ok found =>
          rw [checkPurposes]
          by_cases hmatch : found = required ∨ found = Oid.ekuAny
          · rw [if_pos hmatch]
            exact iff_of_true rfl ⟨[], found, tail, rfl, hmatch⟩
          · rw [if_neg hmatch, ih]
            constructor
            · intro h
              obtain ⟨front, purpose, rest, rfl, hpurpose⟩ := h
              exact ⟨found :: front, purpose, rest, rfl, hpurpose⟩
            · intro h
              obtain ⟨front, purpose, rest, heq, hpurpose⟩ := h
              cases front with
              | nil =>
                  obtain ⟨rfl, rfl⟩ : found = purpose ∧ tail = rest := by simpa using heq
                  exact absurd hpurpose hmatch
              | cons first front =>
                  obtain ⟨rfl, htail⟩ :
                      found = first ∧ tail = front.map .ok ++ .ok purpose :: rest := by
                    simpa using heq
                  exact ⟨front, purpose, rest, htail, hpurpose⟩

theorem checkEku_eq_ok {certificate : Certificate} {required : Option ObjectIdentifier} :
    checkEku certificate required = .ok () ↔ ListsEku certificate required := by
  unfold checkEku ListsEku
  cases required with
  | none => simp
  | some oid =>
      cases hhas : certificate.extensions.hasExtendedKeyUsage with
      | false => simp
      | true => simp [checkPurposes_eq_ok]

theorem checkCa_of {certificate : Certificate} {time : Int}
    (hdate : certificate.validity.notBefore ≤ time ∧ time ≤ certificate.validity.notAfter)
    (hcrit : certificate.extensions.unhandledCritical = [])
    (hca : ∃ b, certificate.extensions.basicConstraints = some b ∧ b.isCa = true)
    (hsign : ∀ usage, certificate.extensions.keyUsage = some usage → usage.keyCertSign = true) :
    checkCa certificate time = .ok () := by
  obtain ⟨b, hb, hisCa⟩ := hca
  simp only [checkCa, bind_eq_ok, refuse_eq_ok]
  refine ⟨(), checkValidity_eq_ok.mpr hdate, (), checkNoUnhandledCritical_eq_ok.mpr hcrit,
    (), by simp [hb, hisCa], ?_⟩
  cases husage : certificate.extensions.keyUsage with
  | none => simp
  | some usage => simp [hsign usage husage]

theorem checkPathLength_of {intermediates : List Certificate} {used : List Nat}
    (hsteps : stepsIn (certificatesAt intermediates used) ≤ 2 ^ 64 - 1)
    (hlimit : ∀ p c limit, (certificatesAt intermediates used)[p]? = some c →
      pathLenConstraint c = some limit →
      stepsIn ((certificatesAt intermediates used).take p) ≤ limit) :
    checkPathLength intermediates used = .ok () := by
  obtain ⟨left, hleft⟩ := foldlM_pathLengthStep_reverse.mpr ⟨hsteps, hlimit⟩
  simp only [checkPathLength, bind_eq_ok]
  exact ⟨left, hleft, trivial⟩

theorem checkNameConstraintsBody_of {body : Bytes} {below : List Certificate}
    (h : Constrains body below) : checkNameConstraintsBody body below.reverse = .ok () := by
  obtain ⟨constraints, hparse, hrespects⟩ := h
  simp only [checkNameConstraintsBody, bind_eq_ok]
  refine ⟨constraints, hparse, checkSubordinates_eq_ok.mpr ?_⟩
  intro above c rest hsplit hself
  obtain ⟨hget, -⟩ := split_reverse hsplit
  refine hrespects rest.length c hget ?_
  intro hissued
  simp [hself hissued]

theorem checkChainConstraints_of {chain : List Certificate}
    (h : ∀ above c below, chain = above ++ c :: below → below ≠ [] →
      checkNameConstraints c below = .ok ()) : checkChainConstraints chain = .ok () := by
  induction chain with
  | nil => rfl
  | cons x rest ih =>
      cases rest with
      | nil => rfl
      | cons y rest =>
          simp only [checkChainConstraints, bind_eq_ok, mapErr_eq_ok]
          refine ⟨(), h [] x (y :: rest) rfl (by simp), ih ?_⟩
          intro above c below hsplit hne
          exact h (x :: above) c below (by simp [hsplit]) hne

variable {input : PathInput}

theorem finalize_of {anchor : TrustAnchor} {used : List Nat}
    (hsteps : stepsIn (certificatesAt input.intermediates used) ≤ 2 ^ 64 - 1)
    (hlimit : ∀ p c limit, (certificatesAt input.intermediates used)[p]? = some c →
      pathLenConstraint c = some limit →
      stepsIn ((certificatesAt input.intermediates used).take p) ≤ limit)
    (hanchor : ∀ body, anchor.nameConstraints = some body → Constrains body (input.chain used))
    (hcas : ∀ p ca body, (certificatesAt input.intermediates used)[p]? = some ca →
      ca.extensions.nameConstraints = some body →
      Constrains body ((input.chain used).take (p + 1))) :
    finalize anchor input.endEntity input.intermediates used = .ok () := by
  simp only [finalize, bind_eq_ok, chain_reverse]
  refine ⟨(), checkPathLength_of hsteps hlimit, (), ?_, checkChainConstraints_of ?_⟩
  · unfold checkAnchorConstraints
    cases hbody : anchor.nameConstraints with
    | none => rfl
    | some body => exact mapErr_eq_ok.mpr (checkNameConstraintsBody_of (hanchor body hbody))
  · intro above c below hsplit hne
    obtain ⟨hget, hbelow⟩ := split_reverse hsplit
    -- Everything but the end-entity certificate is an intermediate.
    obtain ⟨p, hp⟩ : ∃ p, below.length = p + 1 :=
      Nat.exists_eq_add_one.mpr (List.length_pos_iff.mpr hne)
    rw [hp] at hget hbelow
    have hca : (certificatesAt input.intermediates used)[p]? = some c := by
      simpa [PathInput.chain] using hget
    unfold checkNameConstraints
    cases hbody : c.extensions.nameConstraints with
    | none => rfl
    | some body =>
        rw [hbelow]
        exact checkNameConstraintsBody_of (hcas p c body hca hbody)

/-! ### Valid paths -/

/-- A valid path: a valid chain whose end-entity certificate lists a required purpose before
anything malformed. -/
structure ValidPath (ring : Ring) (options : PathOptions) (endEntity : Certificate)
    (cas : List Certificate) (anchor : TrustAnchor) : Prop
    extends ValidChain ring options endEntity cas anchor where
  purpose : ListsEku endEntity options.requiredEku

/-- There is a valid path: pairwise distinct indices of intermediates that exist, and an
anchor, such that the certificates at the indices form one. -/
def HasPath (input : PathInput) : Prop :=
  ∃ (used : List Nat) (cas : List Certificate) (anchor : TrustAnchor), used.Nodup ∧
    used.map (input.intermediates[·]?) = cas.map some ∧ anchor ∈ input.anchors ∧
    ValidPath input.ring input.options input.endEntity cas anchor

/-- Distinct indices spell exactly the lists that are part of a list, in any order. -/
theorem exists_indices_iff {xs ys : List Certificate} :
    (∃ used : List Nat, used.Nodup ∧ used.map (ys[·]?) = xs.map some) ↔ xs.Subperm ys := by
  constructor
  · intro h
    obtain ⟨used, hnodup, hspell⟩ := h
    have hrange : used ⊆ List.range ys.length := by
      intro i hi
      have hmem : ys[i]? ∈ xs.map some := hspell ▸ List.mem_map_of_mem hi
      obtain ⟨c, -, hc⟩ := List.mem_map.mp hmem
      exact List.mem_range.mpr (List.getElem?_eq_some_iff.mp hc.symm).1
    have hall : (List.range ys.length).map (ys[·]?) = ys.map some := by
      apply List.ext_getElem?
      intro i
      by_cases hi : i < ys.length <;> simp [hi]
    obtain ⟨part, hperm, hsub⟩ := hnodup.subperm hrange
    refine (List.map_subperm_map_iff (Option.some_injective _)).mp ?_
    rw [← hspell, ← hall]
    exact ⟨part.map (ys[·]?), hperm.map _, hsub.map _⟩
  · intro hpart
    refine ⟨(List.finRange xs.length).map fun i => (hpart.idxInj i : Nat), ?_, ?_⟩
    · refine (List.nodup_finRange _).map ?_
      intro i j hij
      exact hpart.idxInj_injective (Fin.ext hij)
    · apply List.ext_getElem (by simp)
      intro i hi _
      simp only [List.length_map, List.length_finRange] at hi
      have hget : ys[(hpart.idxInj ⟨i, hi⟩ : Nat)]? = some xs[i] := by
        rw [List.getElem?_eq_getElem (hpart.idxInj ⟨i, hi⟩).isLt]
        exact congrArg some hpart.getElem_idxInj_eq_getElem
      simpa using hget

theorem hasPath_iff : HasPath input ↔ ∃ cas anchor, cas.Subperm input.intermediates ∧
    anchor ∈ input.anchors ∧ ValidPath input.ring input.options input.endEntity cas anchor := by
  constructor
  · intro h
    obtain ⟨used, cas, anchor, hnodup, hspell, hrest⟩ := h
    exact ⟨cas, anchor, exists_indices_iff.mp ⟨used, hnodup, hspell⟩, hrest⟩
  · intro h
    obtain ⟨cas, anchor, hpart, hrest⟩ := h
    obtain ⟨used, hnodup, hspell⟩ := exists_indices_iff.mpr hpart
    exact ⟨used, cas, anchor, hnodup, hspell, hrest⟩

/-- More certificates and more anchors take no path away. -/
theorem hasPath_mono {intermediates : List Certificate} {anchors : List TrustAnchor}
    (hints : input.intermediates.Subperm intermediates) (hanchors : input.anchors ⊆ anchors)
    (h : HasPath input) : HasPath { input with intermediates, anchors } := by
  obtain ⟨cas, anchor, hpart, hmem, hvalid⟩ := hasPath_iff.mp h
  exact hasPath_iff.mpr ⟨cas, anchor, hpart.trans hints, hanchors hmem, hvalid⟩

/-! ### The exits of the search when the budget is gone -/

/-- The error held when the loop over the anchors first finds the budget at zero, if it does. -/
def starvationAnchors (input : PathInput) (current : Certificate) :
    List (TrustAnchor × Nat) → SearchState → Option PathError
  | [], _ => none
  | (anchor, _) :: rest, s =>
      if anchor.subject ≠ current.issuer then
        starvationAnchors input current rest s
      else if s.budget = 0 then
        some s.best
      else
        match verifySignature input.ring current anchor.publicKey with
        | .error err => starvationAnchors input current rest (s.spend.record (.signature err))
        | .ok () =>
            match finalize anchor input.endEntity input.intermediates s.used with
            | .ok () => none
            | .error err => starvationAnchors input current rest (s.spend.record err)

/-- The same of the loop over the intermediates, `starves` being that of the recursive call. -/
def starvationCandidates (input : PathInput) (current : Certificate)
    (recurse : Certificate → SearchState → Option Nat × SearchState)
    (starves : Certificate → SearchState → Option PathError) :
    List (Certificate × Nat) → SearchState → Option PathError
  | [], _ => none
  | (candidate, index) :: rest, s =>
      if index ∈ s.used then
        starvationCandidates input current recurse starves rest s
      else if candidate.subject ≠ current.issuer then
        starvationCandidates input current recurse starves rest s
      else
        match checkCa candidate input.options.time with
        | .error err => starvationCandidates input current recurse starves rest (s.record err)
        | .ok () =>
            if s.budget = 0 then
              some s.best
            else
              match verifySignature input.ring current candidate.subjectPublicKeyInfo with
              | .error err =>
                  starvationCandidates input current recurse starves rest
                    (s.spend.record (.signature err))
              | .ok () =>
                  match starves candidate { s.spend with used := s.used ++ [index] } with
                  | some held => some held
                  | none =>
                      match recurse candidate { s.spend with used := s.used ++ [index] } with
                      | (some _, _) => none
                      | (none, s') =>
                          starvationCandidates input current recurse starves rest
                            { s' with used := s'.used.dropLast }

/-- The error the search holds when it first finds its budget at zero, or `none` when it never
does: `search` again, with what it does there as its result. -/
def starvation (input : PathInput) : Nat → Certificate → SearchState → Option PathError
  | deeper, current, s =>
      match starvationAnchors input current input.anchors.zipIdx s with
      | some held => some held
      | none =>
          match searchAnchors input current input.anchors.zipIdx s with
          | (.found _, _) => none
          | (.stop, _) => none
          | (.next, s') =>
              match deeper with
              | 0 => none
              | deeper + 1 =>
                  starvationCandidates input current (search input deeper)
                    (starvation input deeper) input.intermediates.zipIdx s'

/-- The state a search starts in. -/
def PathInput.start (input : PathInput) : SearchState :=
  ⟨[], input.options.maxSignatureChecks, .noPathToTrustAnchor⟩

/-- What `validatePath` checks before it searches. -/
def PathInput.checkFirst (input : PathInput) : Except PathError Unit := do
  checkValidity input.endEntity input.options.time
  checkNoUnhandledCritical input.endEntity
  checkEku input.endEntity input.options.requiredEku
  refuse (input.options.maxPathLength = 0) .noPathToTrustAnchor

/-- The error `validatePath` holds when its search first finds the budget at zero, or `none`
when the search never does, or never starts. -/
def PathInput.starvation (input : PathInput) : Option PathError :=
  match input.checkFirst with
  | .error _ => none
  | .ok () =>
      RustyTls.starvation input (input.options.maxPathLength - 1) input.endEntity input.start

/-! ### Completeness -/

/-- What can still be built on a stack: `current` has an issuer among the anchors that
finishes the path, or an unused one among the intermediates above which there is more. -/
inductive Climbs (input : PathInput) : Nat → List Nat → Certificate → Prop
  | anchored {deeper : Nat} {used : List Nat} {current : Certificate} {anchor : TrustAnchor}
      (hmem : anchor ∈ input.anchors) (hissued : AnchoredBy input.ring current anchor)
      (hfinal : finalize anchor input.endEntity input.intermediates used = .ok ()) :
      Climbs input deeper used current
  | issued {deeper : Nat} {used : List Nat} {current candidate : Certificate} {index : Nat}
      (hget : input.intermediates[index]? = some candidate) (hfresh : index ∉ used)
      (hissued : IssuedBy input.ring current candidate)
      (hca : checkCa candidate input.options.time = .ok ())
      (habove : Climbs input deeper (used ++ [index]) candidate) :
      Climbs input (deeper + 1) used current

/-- A loop over the anchors that goes on without running out has passed every anchor by. -/
theorem searchAnchors_next {current : Certificate} {as : List (TrustAnchor × Nat)}
    {s s' : SearchState} (h : searchAnchors input current as s = (.next, s')) :
    ∀ a i, (a, i) ∈ as → AnchoredBy input.ring current a →
      ¬ finalize a input.endEntity input.intermediates s.used = .ok () := by
  induction as generalizing s with
  | nil => simp
  | cons entry rest ih =>
      obtain ⟨anchor, index⟩ := entry
      intro a i hmem hissued hfinal
      rw [searchAnchors] at h
      rcases List.mem_cons.mp hmem with heq | hrest
      · obtain ⟨rfl, rfl⟩ : a = anchor ∧ i = index := by simpa using heq
        have hname : ¬ a.subject ≠ current.issuer := by simpa using hissued.1.symm
        rw [if_neg hname] at h
        by_cases hbudget : s.budget = 0
        · simp [hbudget] at h
        · simp [hbudget, hissued.2, hfinal] at h
      · split at h
        · exact ih h a i hrest hissued hfinal
        · split at h
          · simp at h
          · split at h
            · exact ih h a i hrest hissued (by simpa using hfinal)
            · split at h
              · simp at h
              · exact ih h a i hrest hissued (by simpa using hfinal)

theorem specificity_le (e : PathError) : specificity e ≤ 2 := by
  unfold specificity
  split <;> simp

@[simp] theorem record_budget (s : SearchState) (e : PathError) :
    (s.record e).budget = s.budget := by
  unfold SearchState.record
  split <;> rfl

/-- The error a search reports that found its budget at zero while it held `held`. -/
def settle (held : PathError) : PathError :=
  if specificity held < 2 then .searchBudgetExhausted else held

theorem record_exhausted (s : SearchState) :
    s.record .searchBudgetExhausted = { s with best := settle s.best } := by
  have hrank : specificity .searchBudgetExhausted = 2 := rfl
  simp only [SearchState.record, settle, hrank]
  split <;> rfl

/-- Out of checks, with an error that nothing replaces. -/
structure SearchState.Spent (s : SearchState) : Prop where
  budget : s.budget = 0
  specific : specificity s.best = 2

theorem specificity_settle (held : PathError) : specificity (settle held) = 2 := by
  unfold settle
  have hle := specificity_le held
  split
  · rfl
  · omega

theorem SearchState.Spent.record {s : SearchState} (hs : s.Spent) (e : PathError) :
    s.record e = s := by
  unfold SearchState.record
  have hle := specificity_le e
  rw [hs.specific, if_neg (by omega)]

theorem searchCandidates_spent {current : Certificate} {s : SearchState} (hs : s.Spent)
    (recurse : Certificate → SearchState → Option Nat × SearchState)
    (candidates : List (Certificate × Nat)) :
    searchCandidates input current recurse candidates s = (none, s) := by
  induction candidates with
  | nil => rfl
  | cons entry rest ih =>
      obtain ⟨candidate, index⟩ := entry
      rw [searchCandidates]
      by_cases hused : index ∈ s.used
      · rw [if_pos hused]
        exact ih
      · rw [if_neg hused]
        by_cases hname : candidate.subject ≠ current.issuer
        · rw [if_pos hname]
          exact ih
        · rw [if_neg hname]
          cases checkCa candidate input.options.time with
          | error err => simpa only [hs.record] using ih
          | ok _ => simp only [hs.budget, if_true, hs.record]

/-- The loop over the anchors stops exactly when it finds the budget at zero. -/
theorem searchAnchors_starved {current : Certificate} {as : List (TrustAnchor × Nat)}
    {s : SearchState} {held : PathError}
    (h : starvationAnchors input current as s = some held) :
    searchAnchors input current as s = (.stop, ⟨s.used, 0, settle held⟩) := by
  induction as generalizing s with
  | nil => simp [starvationAnchors] at h
  | cons entry rest ih =>
      obtain ⟨anchor, index⟩ := entry
      rw [starvationAnchors] at h
      rw [searchAnchors]
      by_cases hname : anchor.subject ≠ current.issuer
      · rw [if_pos hname] at h ⊢
        exact ih h
      · rw [if_neg hname] at h ⊢
        by_cases hbudget : s.budget = 0
        · rw [if_pos hbudget] at h ⊢
          obtain rfl : s.best = held := by simpa using h
          simp [record_exhausted, hbudget]
        · rw [if_neg hbudget] at h ⊢
          cases hverify : verifySignature input.ring current anchor.publicKey with
          | error err =>
              simp only [hverify] at h ⊢
              simpa using ih h
          | ok _ =>
              simp only [hverify] at h ⊢
              cases hfinal : finalize anchor input.endEntity input.intermediates s.used with
              | ok _ => simp [hfinal] at h
              | error err =>
                  simp only [hfinal] at h ⊢
                  simpa using ih h

theorem searchAnchors_not_starved {current : Certificate} {as : List (TrustAnchor × Nat)}
    {s s' : SearchState} (h : starvationAnchors input current as s = none) :
    searchAnchors input current as s ≠ (.stop, s') := by
  induction as generalizing s with
  | nil => simp [searchAnchors]
  | cons entry rest ih =>
      obtain ⟨anchor, index⟩ := entry
      rw [starvationAnchors] at h
      rw [searchAnchors]
      by_cases hname : anchor.subject ≠ current.issuer
      · rw [if_pos hname] at h ⊢
        exact ih h
      · rw [if_neg hname] at h ⊢
        by_cases hbudget : s.budget = 0
        · simp [hbudget] at h
        · rw [if_neg hbudget] at h ⊢
          cases hverify : verifySignature input.ring current anchor.publicKey with
          | error err =>
              simp only [hverify] at h ⊢
              exact ih h
          | ok _ =>
              simp only [hverify] at h ⊢
              cases hfinal : finalize anchor input.endEntity input.intermediates s.used with
              | ok _ => simp
              | error err =>
                  simp only [hfinal] at h ⊢
                  exact ih h

/-- What is asked of the recursive call: where it starves it fails with the budget spent, and
where it fails without starving there was nothing to build. -/
structure Decides (input : PathInput) (deeper : Nat) (current : Certificate) (s : SearchState)
    (starved : Option PathError) (result : Option Nat × SearchState) : Prop where
  starves : ∀ held, starved = some held → result = (none, ⟨s.used, 0, settle held⟩)
  fails : starved = none → ∀ s', result = (none, s') →
    s'.used = s.used ∧ ¬ Climbs input deeper s.used current

/-- The same of the loop over the candidates: where it fails without starving, none of them can be
climbed on. -/
structure DecidesCandidates (input : PathInput) (deeper : Nat) (current : Certificate)
    (s : SearchState) (candidates : List (Certificate × Nat)) (starved : Option PathError)
    (result : Option Nat × SearchState) : Prop where
  starves : ∀ held, starved = some held → result = (none, ⟨s.used, 0, settle held⟩)
  fails : starved = none → ∀ s', result = (none, s') → s'.used = s.used ∧
    ∀ c i, (c, i) ∈ candidates → i ∉ s.used → IssuedBy input.ring current c →
      checkCa c input.options.time = .ok () → ¬ Climbs input deeper (s.used ++ [i]) c

/-- Passing a candidate by is right when it cannot be climbed on. -/
theorem DecidesCandidates.pass {deeper : Nat} {current candidate : Certificate} {index : Nat}
    {s t : SearchState} {rest : List (Certificate × Nat)} {starved : Option PathError}
    {result : Option Nat × SearchState}
    (h : DecidesCandidates input deeper current t rest starved result) (ht : t.used = s.used)
    (hnot : index ∉ s.used → IssuedBy input.ring current candidate →
      checkCa candidate input.options.time = .ok () →
      ¬ Climbs input deeper (s.used ++ [index]) candidate) :
    DecidesCandidates input deeper current s ((candidate, index) :: rest) starved result := by
  obtain ⟨hstarved, hfailed⟩ := h
  rw [ht] at hstarved hfailed
  refine ⟨hstarved, ?_⟩
  intro hnone s' hres
  obtain ⟨hused, hrest⟩ := hfailed hnone s' hres
  refine ⟨hused, ?_⟩
  intro c i hmem
  rcases List.mem_cons.mp hmem with heq | hmem
  · obtain ⟨rfl, rfl⟩ : c = candidate ∧ i = index := by simpa using heq
    exact hnot
  · exact hrest c i hmem

theorem searchCandidates_decides {deeper : Nat} (current : Certificate)
    {recurse : Certificate → SearchState → Option Nat × SearchState}
    {starves : Certificate → SearchState → Option PathError}
    (hrec : ∀ c s, Decides input deeper c s (starves c s) (recurse c s))
    (candidates : List (Certificate × Nat)) (s : SearchState) :
    DecidesCandidates input deeper current s candidates
      (starvationCandidates input current recurse starves candidates s)
      (searchCandidates input current recurse candidates s) := by
  induction candidates generalizing s with
  | nil =>
      refine ⟨by simp [starvationCandidates], ?_⟩
      intro _ s' h
      obtain rfl : s = s' := by simpa [searchCandidates] using h
      simp
  | cons entry rest ih =>
      obtain ⟨candidate, index⟩ := entry
      rw [starvationCandidates, searchCandidates]
      by_cases hused : index ∈ s.used
      · simp only [if_pos hused]
        exact (ih s).pass rfl (fun hfresh => absurd hused hfresh)
      · simp only [if_neg hused]
        by_cases hname : candidate.subject ≠ current.issuer
        · simp only [if_pos hname]
          exact (ih s).pass rfl (fun _ hissued => absurd hissued.1.symm hname)
        · simp only [if_neg hname]
          cases hca : checkCa candidate input.options.time with
          | error err => exact (ih _).pass (by simp) (fun _ _ hok => by simp [hca] at hok)
          | ok _ =>
              dsimp only
              by_cases hbudget : s.budget = 0
              · simp only [if_pos hbudget]
                refine ⟨?_, by simp⟩
                intro held hheld
                obtain rfl : s.best = held := by simpa using hheld
                simp [record_exhausted, hbudget]
              · simp only [if_neg hbudget]
                cases hverify : verifySignature input.ring current
                    candidate.subjectPublicKeyInfo with
                | error err =>
                    exact (ih _).pass (by simp) (fun _ hissued => absurd hissued.2 (by simp [hverify]))
                | ok _ =>
                    dsimp only
                    have hcall := hrec candidate { s.spend with used := s.used ++ [index] }
                    cases hstarves : starves candidate
                        { s.spend with used := s.used ++ [index] } with
                    | some held =>
                        -- The call spent everything: the rest of the loop changes nothing.
                        have hres := hcall.starves held hstarves
                        have hspent : SearchState.Spent ⟨s.used, 0, settle held⟩ :=
                          ⟨rfl, specificity_settle held⟩
                        refine ⟨?_, by simp⟩
                        intro held' hheld
                        obtain rfl : held = held' := by simpa using hheld
                        rw [hres]
                        simpa using searchCandidates_spent hspent recurse rest
                    | none =>
                        dsimp only
                        rcases hres : recurse candidate
                          { s.spend with used := s.used ++ [index] } with ⟨found, s'⟩
                        cases found with
                        | some anchor => exact ⟨by simp, by simp⟩
                        | none =>
                            obtain ⟨hkept, hclimb⟩ := hcall.fails hstarves s' hres
                            refine (ih { s' with used := s'.used.dropLast }).pass ?_ ?_
                            · simp [hkept]
                            · exact fun _ _ _ => hclimb

/-- No anchor finishes the path when the loop over the anchors goes on. -/
theorem not_anchored_of_next {current : Certificate} {s s' : SearchState}
    (h : searchAnchors input current input.anchors.zipIdx s = (.next, s')) {anchor : TrustAnchor}
    (hmem : anchor ∈ input.anchors) (hissued : AnchoredBy input.ring current anchor) :
    ¬ finalize anchor input.endEntity input.intermediates s.used = .ok () := by
  obtain ⟨i, hi, rfl⟩ := List.getElem_of_mem hmem
  have hzip : (input.anchors[i], i) ∈ input.anchors.zipIdx := by
    simp [List.mem_zipIdx_iff_getElem?]
  exact searchAnchors_next h _ i hzip hissued

/-- It is enough to decide from where the loop over the anchors goes on. -/
theorem search_decides_of_next {deeper : Nat} {current : Certificate} {s : SearchState}
    (hnext : ∀ s', searchAnchors input current input.anchors.zipIdx s = (.next, s') →
      Decides input deeper current s
        (match deeper with
          | 0 => none
          | deeper + 1 => starvationCandidates input current (search input deeper)
              (starvation input deeper) input.intermediates.zipIdx s')
        (match deeper with
          | 0 => (none, s')
          | deeper + 1 =>
              searchCandidates input current (search input deeper)
                input.intermediates.zipIdx s')) :
    Decides input deeper current s (starvation input deeper current s)
      (search input deeper current s) := by
  rw [starvation, search]
  cases hstarved : starvationAnchors input current input.anchors.zipIdx s with
  | some held =>
      rw [searchAnchors_starved hstarved]
      refine ⟨?_, by simp⟩
      intro held' hheld
      obtain rfl : held = held' := by simpa using hheld
      rfl
  | none =>
      rcases hres : searchAnchors input current input.anchors.zipIdx s with ⟨flow, s'⟩
      cases flow with
      | found anchor => exact ⟨by simp, by simp⟩
      | stop => exact absurd hres (searchAnchors_not_starved hstarved)
      | next => exact hnext s' hres

/-- A search decides, in every state it is called in. -/
theorem search_decides (input : PathInput) (deeper : Nat) :
    ∀ (current : Certificate) (s : SearchState),
      Decides input deeper current s (starvation input deeper current s)
        (search input deeper current s) := by
  induction deeper with
  | zero =>
      intro current s
      refine search_decides_of_next fun s' hnext => ⟨by simp, ?_⟩
      intro _ s'' hres
      obtain rfl : s' = s'' := by simpa using hres
      refine ⟨(searchAnchors_ok 0 hnext).1, ?_⟩
      intro hclimbs
      cases hclimbs with
      | anchored hmem hissued hfinal => exact not_anchored_of_next hnext hmem hissued hfinal
  | succ deeper ih =>
      intro current s
      refine search_decides_of_next fun s' hnext => ?_
      have hkept := (searchAnchors_ok 0 hnext).1
      obtain ⟨hstarves, hfails⟩ :=
        searchCandidates_decides current ih input.intermediates.zipIdx s'
      rw [hkept] at hstarves hfails
      refine ⟨hstarves, ?_⟩
      intro hnone s'' hres
      obtain ⟨hused, hnot⟩ := hfails hnone s'' hres
      refine ⟨hused, ?_⟩
      intro hclimbs
      cases hclimbs with
      | anchored hmem hissued hfinal => exact not_anchored_of_next hnext hmem hissued hfinal
      | issued hget hfresh hissued hca habove =>
          exact hnot _ _ (List.mem_zipIdx_iff_getElem?.mpr hget) hfresh hissued hca habove

/-! ### A valid path is climbed -/

/-- A chain of CAs above the stack that reaches an anchor, spelled by fresh indices. -/
theorem climbs_of_chain {anchor : TrustAnchor} (hmem : anchor ∈ input.anchors) {more : List Nat} :
    ∀ {used : List Nat} {current : Certificate} {cas : List Certificate} {deeper : Nat},
      more.map (input.intermediates[·]?) = cas.map some → (used ++ more).Nodup →
      (current :: cas).IsChain (IssuedBy input.ring) →
      (∀ c ∈ cas, checkCa c input.options.time = .ok ()) →
      (∀ top ∈ (current :: cas).getLast?, AnchoredBy input.ring top anchor) →
      finalize anchor input.endEntity input.intermediates (used ++ more) = .ok () →
      more.length ≤ deeper → Climbs input deeper used current := by
  induction more with
  | nil =>
      intro used current cas deeper hspell _ _ _ hanchored hfinal _
      obtain rfl : cas = [] := by simpa using hspell.symm
      exact .anchored hmem (hanchored current (by simp)) (by simpa using hfinal)
  | cons index more ih =>
      intro used current cas deeper hspell hnodup hlinked hca hanchored hfinal hlen
      cases cas with
      | nil => simp at hspell
      | cons candidate cas =>
          cases deeper with
          | zero => simp at hlen
          | succ deeper =>
              obtain ⟨hget, hspell⟩ : input.intermediates[index]? = some candidate ∧
                  more.map (input.intermediates[·]?) = cas.map some := by simpa using hspell
              obtain ⟨hissued, hlinked⟩ := List.isChain_cons_cons.mp hlinked
              have hshift : used ++ index :: more = used ++ [index] ++ more := by simp
              have hfresh : index ∉ used := by
                intro hin
                have hdisjoint := (List.nodup_append.mp hnodup).2.2
                exact hdisjoint index hin index (by simp) rfl
              refine .issued hget hfresh hissued (hca candidate (by simp)) ?_
              refine ih hspell (hshift ▸ hnodup) hlinked ?_ ?_ (hshift ▸ hfinal) ?_
              · exact fun c hc => hca c (by simp [hc])
              · intro top htop
                exact hanchored top (by simpa using htop)
              · simpa using hlen

/-- From an empty stack a valid path is climbed. -/
theorem climbs_of_hasPath (hmax : input.options.maxPathLength < 2 ^ 64) (h : HasPath input) :
    Climbs input (input.options.maxPathLength - 1) [] input.endEntity := by
  obtain ⟨used, cas, anchor, hnodup, hspell, hmem, hvalid⟩ := h
  have hat : certificatesAt input.intermediates used = cas := by
    have hmap : certificatesAt input.intermediates used
        = (used.map (input.intermediates[·]?)).filterMap id := by
      simp [certificatesAt, List.filterMap_map]
    rw [hmap, hspell]
    simp [List.filterMap_map]
  have hlength : used.length = cas.length := by simpa using congrArg List.length hspell
  have hshort := hvalid.short
  have hchain : input.chain used = input.endEntity :: cas := by simp [PathInput.chain, hat]
  have hsteps : stepsIn cas ≤ cas.length := List.length_filter_le _ _
  refine climbs_of_chain hmem hspell (by simpa using hnodup) hvalid.linked ?_ hvalid.anchored
    ?_ (by omega)
  · intro c hc
    have hc' : c ∈ input.endEntity :: cas := List.mem_cons_of_mem _ hc
    exact checkCa_of (hvalid.inDate c hc') (hvalid.understood c hc') (hvalid.isCa c hc)
      (hvalid.certSign c hc)
  · refine finalize_of ?_ ?_ ?_ ?_ <;> simp only [List.nil_append, hat, hchain]
    · omega
    · exact hvalid.pathLen
    · exact hvalid.anchorNames
    · exact hvalid.caNames

/-! ### The main results -/

/-- Path validation with its inputs in one record. -/
def PathInput.validate (input : PathInput) : Except PathError VerifiedPath :=
  validatePath input.ring input.endEntity input.intermediates input.anchors input.options

theorem hasPath_of_validate {path : VerifiedPath} (h : input.validate = .ok path) :
    HasPath input := by
  have h' : validatePath input.ring input.endEntity input.intermediates input.anchors
    input.options = .ok path := h
  obtain ⟨anchor, cas, hanchor, hspell, hnodup, hvalid⟩ := validatePath_ok h'
  simp only [validatePath, bind_eq_ok] at h'
  obtain ⟨_, _, _, _, _, heku, -⟩ := h'
  exact ⟨path.intermediates, cas, anchor, hnodup, hspell, List.mem_of_getElem? hanchor,
    { hvalid with purpose := checkEku_eq_ok.mp heku }⟩

theorem validate_eq_search (input : PathInput) :
    input.validate = (do
      input.checkFirst
      match search input (input.options.maxPathLength - 1) input.endEntity input.start with
      | (some anchor, s) => .ok ⟨anchor, s.used⟩
      | (none, s) => .error s.best) := by
  simp only [PathInput.validate, validatePath, PathInput.checkFirst, bind_assoc]
  rfl

/-- A path needs the checks that come before the search. -/
theorem checkFirst_of_hasPath (h : HasPath input) : input.checkFirst = .ok () := by
  obtain ⟨used, cas, anchor, -, -, -, hvalid⟩ := h
  have hshort := hvalid.short
  simp only [PathInput.checkFirst, bind_eq_ok, refuse_eq_ok]
  refine ⟨(), checkValidity_eq_ok.mpr (hvalid.inDate _ (by simp)), (), ?_, (), ?_, by omega⟩
  · exact checkNoUnhandledCritical_eq_ok.mpr (hvalid.understood _ (by simp))
  · exact checkEku_eq_ok.mpr hvalid.purpose

/-- A search that never finds its budget at zero decides whether there is a valid path. -/
theorem validate_isOk_iff (hmax : input.options.maxPathLength < 2 ^ 64)
    (hbudget : input.starvation = none) :
    (∃ path, input.validate = .ok path) ↔ HasPath input := by
  constructor
  · intro h
    obtain ⟨path, hpath⟩ := h
    exact hasPath_of_validate hpath
  · intro h
    have hfirst := checkFirst_of_hasPath h
    have hdecides := search_decides input (input.options.maxPathLength - 1) input.endEntity
      input.start
    simp only [PathInput.starvation, hfirst] at hbudget
    simp only [validate_eq_search, hfirst, ok_bind]
    rcases hres : search input (input.options.maxPathLength - 1) input.endEntity input.start
      with ⟨found, s⟩
    cases found with
    | some anchor => exact ⟨⟨anchor, s.used⟩, rfl⟩
    | none =>
        obtain ⟨-, hnot⟩ := hdecides.fails hbudget s hres
        exact absurd (climbs_of_hasPath hmax h) hnot

/-- Completeness of path search. When the search never finds its budget at zero, validation
succeeds exactly when there is a valid path. For certificates and anchors for which it does not
run out either, the order makes no difference, and adding some never turns a success into a
failure. -/
theorem validatePath_complete (input : PathInput)
    (hmax : input.options.maxPathLength < 2 ^ 64) (hbudget : input.starvation = none) :
    ((∃ path, input.validate = .ok path) ↔ HasPath input) ∧
    ∀ intermediates anchors, { input with intermediates, anchors }.starvation = none →
      (intermediates.Perm input.intermediates → anchors.Perm input.anchors →
        ((∃ path, { input with intermediates, anchors }.validate = .ok path) ↔
          ∃ path, input.validate = .ok path)) ∧
      (input.intermediates.Subperm intermediates → input.anchors ⊆ anchors →
        (∃ path, input.validate = .ok path) →
          ∃ path, { input with intermediates, anchors }.validate = .ok path) := by
  refine ⟨validate_isOk_iff hmax hbudget, ?_⟩
  intro intermediates anchors hbudget'
  have hiff : (∃ path, { input with intermediates, anchors }.validate = .ok path) ↔
      HasPath { input with intermediates, anchors } := validate_isOk_iff hmax hbudget'
  rw [hiff, validate_isOk_iff hmax hbudget]
  constructor
  · intro hints hanchors
    constructor
    · intro h
      exact @hasPath_mono { input with intermediates, anchors } _ _ hints.subperm
        hanchors.subset h
    · exact hasPath_mono hints.symm.subperm hanchors.symm.subset
  · exact hasPath_mono

/-- A leaf, a CA that expired, the CA that replaced it, and the anchor above them, with
`checks` signature checks to spend. -/
def renewedInput (checks : Nat) : PathInput where
  ring := Ring.sample
  endEntity := sampleCertificate [2] [3] [30] [20] {}
  intermediates :=
    [{ sampleCertificate [1] [2] [20] [10] { basicConstraints := some ⟨true, none⟩ } with
        validity := ⟨0, 10⟩ },
      sampleCertificate [1] [2] [20] [10] { basicConstraints := some ⟨true, none⟩ }]
  anchors := [⟨[1], ⟨⟨Oid.ed25519, none, []⟩, [10], []⟩, none⟩]
  options := { time := 50, maxSignatureChecks := checks }

/-- Two checks are enough for the leaf, in either order of the intermediates. -/
theorem validatePath_complete_renewed :
    (renewedInput 2).starvation = none ∧
    { renewedInput 2 with intermediates := (renewedInput 2).intermediates.reverse }.starvation
      = none ∧
    HasPath (renewedInput 2) ∧
    ∃ path, { renewedInput 2 with
      intermediates := (renewedInput 2).intermediates.reverse }.validate = .ok path := by
  have hbudget : (renewedInput 2).starvation = none := rfl
  have hok : ∃ path, (renewedInput 2).validate = .ok path := ⟨⟨0, [1]⟩, rfl⟩
  obtain ⟨hiff, hother⟩ := validatePath_complete (renewedInput 2) (by decide) hbudget
  have hreversed := hother (renewedInput 2).intermediates.reverse (renewedInput 2).anchors rfl
  exact ⟨hbudget, rfl, hiff.mp hok,
    (hreversed.1 (List.reverse_perm _) (List.Perm.refl _)).mpr hok⟩

end RustyTls
