import RustyTls.PathComplete

/-!
# RustyTls.PathLength

What the check of the path length decides, on a machine of any word size.

The source keeps one counter, from the anchor down: it starts at `usize::MAX`, every certificate
that is not self-issued takes one from it and every `pathLenConstraint` caps it. That says of each
constrained certificate by itself that it has no more certificates below it than it allows
(`checkPathLengthOn_iff_counts`). The constraint is a 64-bit number and the counter a `usize`, so
the check is given here for every `usize`; `checkPathLength` is the one of 64 bits.
-/

namespace RustyTls

open Core

/-- One step of `check_path_length` where the largest `usize` is `usizeMax`: a constraint that
does not fit in one is `usize::MAX`. -/
def pathLengthStepOn (usizeMax remaining : Nat) (certificate : Certificate) :
    Except PathError Nat := do
  refuse (certificate.isSelfIssued = false ∧ remaining = 0) .pathLengthExceeded
  let remaining := if certificate.isSelfIssued then remaining else remaining - 1
  .ok (match pathLenConstraint certificate with
    | some constraint => min remaining (if constraint ≤ usizeMax then constraint else usizeMax)
    | none => remaining)

/-- `check_path_length` where the largest `usize` is `usizeMax`. -/
def checkPathLengthOn (usizeMax : Nat) (intermediates : List Certificate) (used : List Nat) :
    Except PathError Unit := do
  let _ ← (certificatesAt intermediates used.reverse).foldlM (pathLengthStepOn usizeMax) usizeMax
  .ok ()

/-- How many of the certificates below position `p` of a path are not self-issued. -/
def countBelow (intermediates : List Certificate) (used : List Nat) (p : Nat) : Nat :=
  (used.take p).countP fun index => intermediates[index]?.any (!·.isSelfIssued)

/-! ### The word -/

/-- What a step that succeeds does to the counter: a certificate that is not self-issued takes
one, which there was to take, and any constraint caps what is left. -/
theorem pathLengthStepOn_ok {usizeMax remaining remaining' : Nat} {certificate : Certificate}
    (hle : remaining ≤ usizeMax)
    (h : pathLengthStepOn usizeMax remaining certificate = .ok remaining') :
    ∃ left, left + (if certificate.isSelfIssued then 0 else 1) = remaining ∧
      remaining' = (pathLenConstraint certificate).elim left (min left) := by
  simp only [pathLengthStepOn, bind_eq_ok, refuse_eq_ok, Except.ok.injEq] at h
  obtain ⟨-, hleft, rfl⟩ := h
  refine ⟨if certificate.isSelfIssued then remaining else remaining - 1, ?_, ?_⟩
  · cases hself : certificate.isSelfIssued
    · have : remaining ≠ 0 := fun hzero => hleft ⟨hself, hzero⟩
      simp
      omega
    · simp
  · have hcap : (if certificate.isSelfIssued then remaining else remaining - 1) ≤ usizeMax := by
      split <;> omega
    cases pathLenConstraint certificate with
    | none => rfl
    | some limit =>
        simp only [Option.elim_some]
        by_cases hlimit : limit ≤ usizeMax
        · rw [if_pos hlimit]
        · rw [if_neg hlimit]
          omega

/-- The counter is a `usize` all the way, and a constraint too large for one caps nothing. -/
theorem pathLengthStepOn_eq {usizeMax remaining : Nat} (hle : remaining ≤ usizeMax)
    (certificate : Certificate) :
    pathLengthStepOn usizeMax remaining certificate = pathLengthStep remaining certificate := by
  have hcap : (if certificate.isSelfIssued then remaining else remaining - 1) ≤ usizeMax := by
    split <;> omega
  unfold pathLengthStepOn pathLengthStep
  congr 1
  funext _
  cases pathLenConstraint certificate with
  | none => rfl
  | some limit =>
      by_cases hlimit : limit ≤ usizeMax
      · simp [hlimit]
      · simp only [if_neg hlimit]
        congr 1
        omega

theorem pathLengthStepOn_le {usizeMax remaining remaining' : Nat} {certificate : Certificate}
    (hle : remaining ≤ usizeMax)
    (h : pathLengthStepOn usizeMax remaining certificate = .ok remaining') :
    remaining' ≤ usizeMax := by
  obtain ⟨left, hleft, rfl⟩ := pathLengthStepOn_ok hle h
  cases pathLenConstraint certificate with
  | none => simp only [Option.elim_none]; omega
  | some limit => simp only [Option.elim_some]; omega

theorem foldlM_pathLengthStepOn {usizeMax : Nat} {chain : List Certificate} {remaining : Nat}
    (hle : remaining ≤ usizeMax) :
    chain.foldlM (pathLengthStepOn usizeMax) remaining = chain.foldlM pathLengthStep remaining := by
  induction chain generalizing remaining with
  | nil => rfl
  | cons c rest ih =>
      rw [List.foldlM_cons, List.foldlM_cons, ← pathLengthStepOn_eq hle]
      cases hstep : pathLengthStepOn usizeMax remaining c with
      | error e => rfl
      | ok left => exact ih (pathLengthStepOn_le hle hstep)

theorem foldlM_pathLengthStepOn_le {usizeMax : Nat} {chain : List Certificate}
    {remaining left : Nat} (hle : remaining ≤ usizeMax)
    (h : chain.foldlM (pathLengthStepOn usizeMax) remaining = .ok left) : left ≤ usizeMax := by
  induction chain generalizing remaining with
  | nil =>
      obtain rfl : remaining = left := by simpa using h
      exact hle
  | cons c rest ih =>
      simp only [List.foldlM_cons, bind_eq_ok] at h
      obtain ⟨next, hstep, hrest⟩ := h
      exact ih (pathLengthStepOn_le hle hstep) hrest

/-- The check of the model is the one of 64 bits. -/
theorem checkPathLengthOn_word (intermediates : List Certificate) (used : List Nat) :
    checkPathLengthOn (2 ^ 64 - 1) intermediates used = checkPathLength intermediates used := by
  unfold checkPathLengthOn checkPathLength
  rw [foldlM_pathLengthStepOn le_rfl]

/-! ### The counts -/

section Counts

variable {intermediates : List Certificate} {used : List Nat}

theorem certificatesAt_getElem? (hvalid : ∀ index ∈ used, index < intermediates.length) (p : Nat) :
    (certificatesAt intermediates used)[p]? = used[p]?.bind (intermediates[·]?) := by
  induction used generalizing p with
  | nil => rfl
  | cons index rest ih =>
      have hindex : index < intermediates.length := hvalid index (by simp)
      have hrest := ih fun i hi => hvalid i (by simp [hi])
      unfold certificatesAt at hrest ⊢
      rw [List.filterMap_cons, List.getElem?_eq_getElem hindex]
      cases p with
      | zero => simp [List.getElem?_eq_getElem hindex]
      | succ p => simpa using hrest p

theorem stepsIn_certificatesAt (indices : List Nat) :
    stepsIn (certificatesAt intermediates indices)
      = indices.countP fun index => intermediates[index]?.any (!·.isSelfIssued) := by
  induction indices with
  | nil => rfl
  | cons index rest ih =>
      unfold stepsIn certificatesAt at ih ⊢
      rw [List.countP_cons, ← ih, List.filterMap_cons]
      cases intermediates[index]? with
      | none => simp
      | some c => cases hself : c.isSelfIssued <;> simp [hself]

theorem certificatesAt_take (hvalid : ∀ index ∈ used, index < intermediates.length) (p : Nat) :
    (certificatesAt intermediates used).take p = certificatesAt intermediates (used.take p) := by
  have htake : ∀ index ∈ used.take p, index < intermediates.length :=
    fun index hmem => hvalid index (List.mem_of_mem_take hmem)
  apply List.ext_getElem?
  intro q
  rw [certificatesAt_getElem? htake, List.getElem?_take, List.getElem?_take,
    certificatesAt_getElem? hvalid]
  split
  · rfl
  · rfl

theorem stepsIn_take (hvalid : ∀ index ∈ used, index < intermediates.length) (p : Nat) :
    stepsIn ((certificatesAt intermediates used).take p) = countBelow intermediates used p := by
  rw [certificatesAt_take hvalid, stepsIn_certificatesAt]
  rfl

theorem stepsIn_le_length (indices : List Nat) :
    stepsIn (certificatesAt intermediates indices) ≤ indices.length := by
  rw [stepsIn_certificatesAt]
  exact List.countP_le_length

end Counts

/-- The path length check is its meaning for each certificate by itself, whatever the word of the
machine: a path is accepted exactly when every certificate with a `pathLenConstraint` has at most
so many certificates below it that are not self-issued. On the way down the counter is never taken
below zero, a self-issued certificate takes nothing from it, and every constraint caps it. On a
machine of 64 bits the check is the one that path validation makes. -/
theorem checkPathLengthOn_iff_counts {usizeMax : Nat} {intermediates : List Certificate}
    {used : List Nat} (hvalid : ∀ index ∈ used, index < intermediates.length)
    (hword : used.length ≤ usizeMax) :
    (checkPathLengthOn usizeMax intermediates used = .ok () ↔
      ∀ p index c limit, used[p]? = some index → intermediates[index]? = some c →
        pathLenConstraint c = some limit → countBelow intermediates used p ≤ limit) ∧
    (∀ above c below remaining remaining',
      certificatesAt intermediates used.reverse = above ++ c :: below →
      above.foldlM (pathLengthStepOn usizeMax) usizeMax = .ok remaining →
      pathLengthStepOn usizeMax remaining c = .ok remaining' →
      ∃ left, left + (if c.isSelfIssued then 0 else 1) = remaining ∧
        remaining' = (pathLenConstraint c).elim left (min left)) ∧
    checkPathLengthOn (2 ^ 64 - 1) intermediates used = checkPathLength intermediates used := by
  refine ⟨?_, ?_, checkPathLengthOn_word intermediates used⟩
  · have hok : checkPathLengthOn usizeMax intermediates used = .ok () ↔
        ∃ left, (certificatesAt intermediates used.reverse).foldlM pathLengthStep usizeMax
          = .ok left := by
      unfold checkPathLengthOn
      rw [foldlM_pathLengthStepOn le_rfl]
      simp [bind_eq_ok]
    have hsteps : stepsIn (certificatesAt intermediates used) ≤ usizeMax :=
      (stepsIn_le_length used).trans hword
    rw [hok, foldlM_pathLengthStep_reverse, and_iff_right hsteps]
    constructor
    · intro h p index c limit hp hc hlimit
      rw [← stepsIn_take hvalid]
      exact h p c limit (by rw [certificatesAt_getElem? hvalid, hp]; exact hc) hlimit
    · intro h p c limit hp hlimit
      rw [certificatesAt_getElem? hvalid, Option.bind_eq_some_iff] at hp
      obtain ⟨index, hp, hc⟩ := hp
      rw [stepsIn_take hvalid]
      exact h p index c limit hp hc hlimit
  · intro above c below remaining remaining' _ habove hstep
    exact pathLengthStepOn_ok (foldlM_pathLengthStepOn_le le_rfl habove) hstep

/-- A CA that allows one more, that CA under a new key with a limit no 32-bit word holds, and one
that allows no more. -/
def rolledOver : List Certificate :=
  [sampleCertificate [1] [2] [20] [10] { basicConstraints := some ⟨true, some 1⟩ },
    sampleCertificate [2] [2] [21] [20] { basicConstraints := some ⟨true, some (2 ^ 40)⟩ },
    sampleCertificate [2] [3] [30] [21] { basicConstraints := some ⟨true, some 0⟩ }]

/-- The certificate under the new key does not count. -/
theorem checkPathLengthOn_iff_counts_rolledOver :
    checkPathLengthOn (2 ^ 32 - 1) rolledOver [2, 1, 0] = .ok () ∧
    countBelow rolledOver [2, 1, 0] 2 ≤ 1 ∧
    checkPathLengthOn (2 ^ 64 - 1) rolledOver [2, 1, 0] = checkPathLength rolledOver [2, 1, 0] := by
  have hok : checkPathLengthOn (2 ^ 32 - 1) rolledOver [2, 1, 0] = .ok () := by decide
  obtain ⟨hcounts, -, hword⟩ :=
    @checkPathLengthOn_iff_counts (2 ^ 32 - 1) rolledOver [2, 1, 0] (by decide) (by decide)
  exact ⟨hok, hcounts.mp hok 2 0 _ 1 rfl rfl rfl, hword⟩

end RustyTls
