import RustyTls.PathComplete

/-!
# RustyTls.SearchWork

The work of a path search.

`tracedSearch` is `search` with a note of everything that costs: each call, each signature
verification, each check of a candidate. It returns what `search` returns (`tracedSearch_value`),
so the notes are those of the code. The budget is one counter for all branches, and each
verification takes one from it and none is made without (`Account.budget`); each call but the
first follows a verification of its own. That bounds the calls, and with them the checks, for any
certificates at all: a branch that finds the budget empty only gives up its own loop, but the
loops above it have nothing left to start another with.
-/

namespace RustyTls

open Core

/-- What costs in a search. -/
inductive Work
  /-- A call of `search`, at this depth. -/
  | search (depth : Nat)
  /-- A signature verification. -/
  | verify
  /-- A call of `check_ca`. -/
  | checkCa
  deriving Repr, DecidableEq

/-- A value and the work done for it. -/
structure Traced (β : Type) where
  value : β
  work : List Work

/-- A value for which other work was done before. -/
def Traced.after {β : Type} (before : List Work) (traced : Traced β) : Traced β :=
  ⟨traced.value, before ++ traced.work⟩

@[simp] theorem Traced.after_value {β : Type} (before : List Work) (traced : Traced β) :
    (traced.after before).value = traced.value := rfl

@[simp] theorem Traced.after_work {β : Type} (before : List Work) (traced : Traced β) :
    (traced.after before).work = before ++ traced.work := rfl

/-! ### The search with its work -/

def tracedAnchors (input : PathInput) (current : Certificate) :
    List (TrustAnchor × Nat) → SearchState → Traced (Flow × SearchState)
  | [], s => ⟨(.next, s), []⟩
  | (anchor, index) :: rest, s =>
      if anchor.subject ≠ current.issuer then
        tracedAnchors input current rest s
      else if s.budget = 0 then
        ⟨(.stop, s.record .searchBudgetExhausted), []⟩
      else
        match verifySignature input.ring current anchor.publicKey with
        | .error err =>
            (tracedAnchors input current rest (s.spend.record (.signature err))).after [.verify]
        | .ok () =>
            match finalize anchor input.endEntity input.intermediates s.used with
            | .ok () => ⟨(.found index, s.spend), [.verify]⟩
            | .error err =>
                (tracedAnchors input current rest (s.spend.record err)).after [.verify]

def tracedCandidates (input : PathInput) (current : Certificate)
    (recurse : Certificate → SearchState → Traced (Option Nat × SearchState)) :
    List (Certificate × Nat) → SearchState → Traced (Option Nat × SearchState)
  | [], s => ⟨(none, s), []⟩
  | (candidate, index) :: rest, s =>
      if index ∈ s.used then
        tracedCandidates input current recurse rest s
      else if candidate.subject ≠ current.issuer then
        tracedCandidates input current recurse rest s
      else
        match checkCa candidate input.options.time with
        | .error err =>
            (tracedCandidates input current recurse rest (s.record err)).after [.checkCa]
        | .ok () =>
            if s.budget = 0 then
              ⟨(none, s.record .searchBudgetExhausted), [.checkCa]⟩
            else
              match verifySignature input.ring current candidate.subjectPublicKeyInfo with
              | .error err =>
                  (tracedCandidates input current recurse rest
                    (s.spend.record (.signature err))).after [.checkCa, .verify]
              | .ok () =>
                  let below := recurse candidate { s.spend with used := s.used ++ [index] }
                  match below.value with
                  | (some anchor, s') => ⟨(some anchor, s'), [.checkCa, .verify] ++ below.work⟩
                  | (none, s') =>
                      (tracedCandidates input current recurse rest
                        { s' with used := s'.used.dropLast }).after
                          ([.checkCa, .verify] ++ below.work)

def tracedSearch (input : PathInput) :
    (deeper depth : Nat) → Certificate → SearchState → Traced (Option Nat × SearchState)
  | deeper, depth, current, s =>
      let anchors := tracedAnchors input current input.anchors.zipIdx s
      match anchors.value with
      | (.found anchor, s') => ⟨(some anchor, s'), .search depth :: anchors.work⟩
      | (.stop, s') => ⟨(none, s'), .search depth :: anchors.work⟩
      | (.next, s') =>
          match deeper with
          | 0 => ⟨(none, s'), .search depth :: anchors.work⟩
          | deeper + 1 =>
              (tracedCandidates input current (tracedSearch input deeper (depth + 1))
                input.intermediates.zipIdx s').after (.search depth :: anchors.work)

section
variable {input : PathInput}

theorem tracedAnchors_value (current : Certificate) (anchors : List (TrustAnchor × Nat))
    (s : SearchState) :
    (tracedAnchors input current anchors s).value = searchAnchors input current anchors s := by
  induction anchors generalizing s with
  | nil => rfl
  | cons entry rest ih =>
      obtain ⟨anchor, index⟩ := entry
      rw [tracedAnchors, searchAnchors]
      split
      · exact ih s
      split
      · rfl
      cases verifySignature input.ring current anchor.publicKey with
      | error err => exact ih _
      | ok _ =>
          cases finalize anchor input.endEntity input.intermediates s.used with
          | error err => exact ih _
          | ok _ => rfl

theorem tracedCandidates_value (current : Certificate)
    {traced : Certificate → SearchState → Traced (Option Nat × SearchState)}
    {recurse : Certificate → SearchState → Option Nat × SearchState}
    (hrecurse : ∀ c s, (traced c s).value = recurse c s) (candidates : List (Certificate × Nat))
    (s : SearchState) :
    (tracedCandidates input current traced candidates s).value
      = searchCandidates input current recurse candidates s := by
  induction candidates generalizing s with
  | nil => rfl
  | cons entry rest ih =>
      obtain ⟨candidate, index⟩ := entry
      rw [tracedCandidates, searchCandidates]
      split
      · exact ih s
      split
      · exact ih s
      cases checkCa candidate input.options.time with
      | error err => exact ih _
      | ok _ =>
          simp only
          split
          · rfl
          cases verifySignature input.ring current candidate.subjectPublicKeyInfo with
          | error err => exact ih _
          | ok _ =>
              simp only [← hrecurse]
              generalize traced candidate _ = below
              obtain ⟨⟨found, s'⟩, work⟩ := below
              cases found with
              | none => exact ih _
              | some anchor => rfl

/-- The search with its work finds what the search finds. -/
theorem tracedSearch_value (deeper depth : Nat) (current : Certificate) (s : SearchState) :
    (tracedSearch input deeper depth current s).value = search input deeper current s := by
  induction deeper generalizing depth current s with
  | zero =>
      rw [tracedSearch, search, ← tracedAnchors_value]
      generalize tracedAnchors input current input.anchors.zipIdx s = anchors
      obtain ⟨⟨flow, s'⟩, work⟩ := anchors
      cases flow <;> rfl
  | succ deeper ih =>
      rw [tracedSearch, search, ← tracedAnchors_value]
      generalize tracedAnchors input current input.anchors.zipIdx s = anchors
      obtain ⟨⟨flow, s'⟩, work⟩ := anchors
      cases flow with
      | found anchor => rfl
      | stop => rfl
      | next => exact tracedCandidates_value current (fun c s => ih (depth + 1) c s) _ _

end

/-! ### The account of a search -/

/-- The calls of `search`. -/
def searches (work : List Work) : Nat :=
  work.countP fun
    | .search _ => true
    | _ => false

/-- The signature verifications. -/
def verifications (work : List Work) : Nat := work.count .verify

/-- The calls of `check_ca`. -/
def caChecks (work : List Work) : Nat := work.count .checkCa

section
variable (work more : List Work)

@[simp] theorem searches_append :
    searches (work ++ more) = searches work + searches more := List.countP_append

@[simp] theorem verifications_append :
    verifications (work ++ more) = verifications work + verifications more := List.count_append

@[simp] theorem caChecks_append :
    caChecks (work ++ more) = caChecks work + caChecks more := List.count_append

end

/-- What a part of a search may cost, from the state `s` to `s'`: a verification for each one taken
from the budget, a call for each verification and `calls` more, and `n` checks for each call and
`checks` more. -/
structure Account (n deepest calls checks : Nat) (s s' : SearchState) (work : List Work) : Prop where
  budget : s'.budget + verifications work = s.budget
  searches : searches work ≤ verifications work + calls
  checks : caChecks work ≤ n * RustyTls.searches work + checks
  depth : ∀ depth, .search depth ∈ work → depth ≤ deepest

namespace Account

variable {n deepest calls calls' checks checks' : Nat} {s s' s'' : SearchState}
  {work more : List Work}

/-- Nothing is done. -/
theorem refl (h : s'.budget = s.budget) : Account n deepest 0 0 s s' [] :=
  ⟨by simpa [verifications] using h, by simp [RustyTls.searches], by simp [caChecks], by simp⟩

/-- One part after another. -/
theorem trans (h : Account n deepest calls checks s s' work)
    (h' : Account n deepest calls' checks' s' s'' more) :
    Account n deepest (calls + calls') (checks + checks') s s'' (work ++ more) := by
  obtain ⟨hbudget, hsearches, hchecks, hdepth⟩ := h
  obtain ⟨hbudget', hsearches', hchecks', hdepth'⟩ := h'
  refine ⟨?_, ?_, ?_, ?_⟩
  · rw [verifications_append]
    omega
  · rw [searches_append, verifications_append]
    omega
  · rw [searches_append, caChecks_append, Nat.mul_add]
    omega
  · intro depth hmem
    rcases List.mem_append.mp hmem with hmem | hmem
    · exact hdepth depth hmem
    · exact hdepth' depth hmem

/-- More may be allowed. -/
theorem weaken (h : Account n deepest calls checks s s' work) (hcalls : calls ≤ calls')
    (hchecks : checks ≤ checks') : Account n deepest calls' checks' s s' work :=
  ⟨h.budget, h.searches.trans (by omega), h.checks.trans (by omega), h.depth⟩

/-- What is not the budget does not count. -/
theorem restore (h : Account n deepest calls checks s s' work) (hbudget : s''.budget = s'.budget) :
    Account n deepest calls checks s s'' work :=
  ⟨by rw [hbudget]; exact h.budget, h.searches, h.checks, h.depth⟩

/-- A verification that succeeds or not. -/
theorem verify (hbudget : s.budget ≠ 0) (h : s'.budget = s.spend.budget) :
    Account n deepest 0 0 s s' [.verify] := by
  have hspend : s.spend.budget = s.budget - 1 := rfl
  refine ⟨?_, by decide, by simp [caChecks], by simp⟩
  have hone : verifications [.verify] = 1 := rfl
  omega

/-- A check of a candidate. -/
theorem check (h : s'.budget = s.budget) : Account n deepest 0 1 s s' [.checkCa] := by
  refine ⟨?_, by decide, ?_, by simp⟩
  · have hnone : verifications [.checkCa] = 0 := rfl
    omega
  · have hone : caChecks [.checkCa] = 1 := rfl
    omega

/-- A branch: the call below it is paid for by the verification before it. -/
theorem branch (hbudget : s.budget ≠ 0) {pushed : SearchState} (hpushed : pushed.budget = s.spend.budget)
    (h : Account n deepest 1 0 pushed s' work) :
    Account n deepest 0 1 s s' ([.checkCa, .verify] ++ work) := by
  have hspend : s.spend.budget = s.budget - 1 := rfl
  have hverify : verifications [.checkCa, .verify] = 1 := rfl
  have hcall : RustyTls.searches [.checkCa, .verify] = 0 := rfl
  have hcheck : caChecks [.checkCa, .verify] = 1 := rfl
  obtain ⟨hbelow, hsearches, hchecks, hdepth⟩ := h
  refine ⟨?_, ?_, ?_, ?_⟩
  · rw [verifications_append]
    omega
  · rw [searches_append, verifications_append]
    omega
  · rw [searches_append, caChecks_append, hcall, Nat.zero_add]
    omega
  · intro depth hmem
    exact hdepth depth (by simpa using hmem)

/-- A call of `search`: its own loop makes at most `n` checks. -/
theorem call {depth : Nat} (hdepth : depth ≤ deepest) (h : Account n deepest 0 n s s' work) :
    Account n deepest 1 0 s s' (.search depth :: work) := by
  have hcall : RustyTls.searches (.search depth :: work) = 1 + RustyTls.searches work := by
    rw [← List.singleton_append, searches_append]
    rfl
  have hverify : verifications (.search depth :: work) = verifications work := by
    simp [verifications]
  have hcheck : caChecks (.search depth :: work) = caChecks work := by
    simp [caChecks]
  obtain ⟨hbudget, hsearches, hchecks, hdeep⟩ := h
  refine ⟨?_, ?_, ?_, ?_⟩
  · rw [hverify]
    exact hbudget
  · rw [hcall, hverify]
    omega
  · rw [hcall, hcheck, Nat.mul_add]
    omega
  · intro depth' hmem
    rcases List.mem_cons.mp hmem with heq | hmem
    · obtain rfl : depth' = depth := by simpa using heq
      exact hdepth
    · exact hdeep depth' hmem

end Account

section
variable {input : PathInput} {n deepest : Nat}

theorem tracedAnchors_account (current : Certificate) (anchors : List (TrustAnchor × Nat))
    (s : SearchState) :
    Account n deepest 0 0 s (tracedAnchors input current anchors s).value.2
      (tracedAnchors input current anchors s).work := by
  induction anchors generalizing s with
  | nil => exact .refl rfl
  | cons entry rest ih =>
      obtain ⟨anchor, index⟩ := entry
      rw [tracedAnchors]
      split
      · exact ih s
      split
      · exact .refl (record_budget s _)
      next hbudget =>
        cases verifySignature input.ring current anchor.publicKey with
        | error err => exact (Account.verify hbudget (record_budget _ _)).trans (ih _)
        | ok _ =>
            cases finalize anchor input.endEntity input.intermediates s.used with
            | error err => exact (Account.verify hbudget (record_budget _ _)).trans (ih _)
            | ok _ => exact .verify hbudget rfl

/-- The loop over the candidates checks each of them at most once itself. -/
theorem tracedCandidates_account (current : Certificate)
    {recurse : Certificate → SearchState → Traced (Option Nat × SearchState)}
    (hrecurse : ∀ c s, Account n deepest 1 0 s (recurse c s).value.2 (recurse c s).work)
    (candidates : List (Certificate × Nat)) (s : SearchState) :
    Account n deepest 0 candidates.length s
      (tracedCandidates input current recurse candidates s).value.2
      (tracedCandidates input current recurse candidates s).work := by
  induction candidates generalizing s with
  | nil => exact .refl rfl
  | cons entry rest ih =>
      obtain ⟨candidate, index⟩ := entry
      have hcount : 1 + rest.length = ((candidate, index) :: rest).length := by
        rw [List.length_cons]
        omega
      have hskip : Account n deepest 0 ((candidate, index) :: rest).length s
          (tracedCandidates input current recurse rest s).value.2
          (tracedCandidates input current recurse rest s).work :=
        (ih s).weaken (Nat.le_refl 0) (by omega)
      rw [tracedCandidates]
      split
      · exact hskip
      split
      · exact hskip
      cases checkCa candidate input.options.time with
      | error err =>
          rw [← hcount]
          exact (Account.check (record_budget s err)).trans (ih _)
      | ok _ =>
          simp only
          split
          · exact (Account.check (record_budget s _)).weaken (Nat.le_refl 0) (by omega)
          next hbudget =>
            cases verifySignature input.ring current candidate.subjectPublicKeyInfo with
            | error err =>
                rw [← hcount]
                exact ((Account.check rfl).trans (Account.verify hbudget (record_budget _ _))).trans
                  (ih _)
            | ok _ =>
                have hpushed : ({ s.spend with used := s.used ++ [index] } : SearchState).budget
                    = s.spend.budget := rfl
                have hbelow := Account.branch hbudget hpushed (hrecurse candidate _)
                simp only at hbelow ⊢
                generalize recurse candidate _ = below at hbelow ⊢
                obtain ⟨⟨found, s'⟩, work⟩ := below
                rw [← hcount]
                cases found with
                | none =>
                    have hpopped : Account n deepest 0 1 s
                        { s' with used := s'.used.dropLast } _ := hbelow.restore rfl
                    exact hpopped.trans (ih _)
                | some anchor => exact hbelow.weaken (Nat.le_refl 0) (by omega)

/-- A call of `search` at a depth that the path length leaves room for. -/
theorem tracedSearch_account (deeper depth : Nat) (hdepth : depth + deeper ≤ deepest)
    (current : Certificate) (s : SearchState) :
    Account input.intermediates.length deepest 1 0 s
      (tracedSearch input deeper depth current s).value.2
      (tracedSearch input deeper depth current s).work := by
  induction deeper generalizing depth current s with
  | zero =>
      have hanchors := (@tracedAnchors_account input input.intermediates.length deepest current
        input.anchors.zipIdx s).weaken (Nat.le_refl 0) (Nat.zero_le input.intermediates.length)
      rw [tracedSearch]
      generalize tracedAnchors input current input.anchors.zipIdx s = anchors at hanchors ⊢
      obtain ⟨⟨flow, s'⟩, work⟩ := anchors
      cases flow <;> exact .call (by omega) hanchors
  | succ deeper ih =>
      have hanchors := @tracedAnchors_account input input.intermediates.length deepest current
        input.anchors.zipIdx s
      rw [tracedSearch]
      generalize tracedAnchors input current input.anchors.zipIdx s = anchors at hanchors ⊢
      obtain ⟨⟨flow, s'⟩, work⟩ := anchors
      have halone : Account input.intermediates.length deepest 0 input.intermediates.length s s'
          work := hanchors.weaken (Nat.le_refl 0) (Nat.zero_le _)
      cases flow with
      | found anchor => exact .call (by omega) halone
      | stop => exact .call (by omega) halone
      | next =>
          have hloop := @tracedCandidates_account input input.intermediates.length deepest current _
            (fun c s => ih (depth + 1) (by omega) c s) input.intermediates.zipIdx s'
          rw [List.length_zipIdx] at hloop
          exact .call (by omega) ((hanchors.trans hloop).weaken (by omega) (by omega))

end

/-! ### Path validation -/

/-- The search for a path, with its work. -/
def tracedFound (input : PathInput) : Traced (Option Nat × SearchState) :=
  tracedSearch input (input.options.maxPathLength - 1) 1 input.endEntity input.start

/-- The work of the search for a path. -/
theorem tracedFound_work (input : PathInput) (hlength : input.options.maxPathLength ≠ 0) :
    verifications (tracedFound input).work ≤ input.options.maxSignatureChecks ∧
    searches (tracedFound input).work ≤ input.options.maxSignatureChecks + 1 ∧
    (∀ depth, .search depth ∈ (tracedFound input).work → depth ≤ input.options.maxPathLength) ∧
    caChecks (tracedFound input).work
      ≤ (input.options.maxSignatureChecks + 1) * input.intermediates.length := by
  have haccount := @tracedSearch_account input input.options.maxPathLength
    (input.options.maxPathLength - 1) 1 (by omega) input.endEntity input.start
  have hbudget : (tracedFound input).value.2.budget + verifications (tracedFound input).work
      = input.options.maxSignatureChecks := haccount.budget
  have hsearches : searches (tracedFound input).work
      ≤ verifications (tracedFound input).work + 1 := haccount.searches
  have hchecks : caChecks (tracedFound input).work
      ≤ input.intermediates.length * searches (tracedFound input).work := haccount.checks
  refine ⟨by omega, by omega, haccount.depth, ?_⟩
  calc caChecks (tracedFound input).work
      ≤ input.intermediates.length * searches (tracedFound input).work := hchecks
    _ ≤ input.intermediates.length * (input.options.maxSignatureChecks + 1) :=
        Nat.mul_le_mul_left _ (by omega)
    _ = (input.options.maxSignatureChecks + 1) * input.intermediates.length := Nat.mul_comm _ _

/-- The checks of the end-entity certificate, before there is a search. -/
def checkEndEntity (endEntity : Certificate) (options : PathOptions) : Except PathError Unit := do
  checkValidity endEntity options.time
  checkNoUnhandledCritical endEntity
  checkEku endEntity options.requiredEku
  refuse (options.maxPathLength = 0) .noPathToTrustAnchor

/-- What `validatePath` makes of a search. -/
def pathOf (found : Option Nat × SearchState) : Except PathError VerifiedPath :=
  match found with
  | (some anchor, s) => .ok ⟨anchor, s.used⟩
  | (none, s) => .error s.best

/-- `validatePath` with its work, and the stack of indices it leaves. -/
def tracedValidatePath (ring : Ring) (endEntity : Certificate) (intermediates : List Certificate)
    (anchors : List TrustAnchor) (options : PathOptions) :
    Traced (Except PathError VerifiedPath × List Nat) :=
  match checkEndEntity endEntity options with
  | .error err => ⟨(.error err, []), []⟩
  | .ok () =>
      let found := tracedFound { ring, endEntity, intermediates, anchors, options }
      ⟨(pathOf found.value, found.value.2.used), found.work⟩

theorem validatePath_eq (ring : Ring) (endEntity : Certificate)
    (intermediates : List Certificate) (anchors : List TrustAnchor) (options : PathOptions) :
    validatePath ring endEntity intermediates anchors options
      = (checkEndEntity endEntity options >>= fun _ =>
          pathOf (tracedFound { ring, endEntity, intermediates, anchors, options }).value) := by
  simp only [validatePath, checkEndEntity, bind_assoc, tracedFound, tracedSearch_value]
  rfl

/-- A search that fails gives its stack back. -/
theorem tracedFound_stack {input : PathInput} {err : PathError}
    (h : pathOf (tracedFound input).value = .error err) : (tracedFound input).value.2.used = [] := by
  have hstack := search_ok input (input.options.maxPathLength - 1) input.endEntity input.start
  rw [← tracedSearch_value (input.options.maxPathLength - 1) 1, ← tracedFound] at hstack
  generalize (tracedFound input).value = found at h hstack ⊢
  obtain ⟨anchor, s⟩ := found
  cases anchor with
  | none => exact hstack
  | some anchor => cases h

/-- The options bound the work of a path validation, whatever certificates it is given: the
signature verifications, the calls of the search and their depth, and the checks of candidates.
When no path is found, nothing is left on the stack of indices. -/
theorem validatePath_work (ring : Ring) (endEntity : Certificate)
    (intermediates : List Certificate) (anchors : List TrustAnchor) (options : PathOptions) :
    let traced := tracedValidatePath ring endEntity intermediates anchors options
    traced.value.1 = validatePath ring endEntity intermediates anchors options ∧
    verifications traced.work ≤ options.maxSignatureChecks ∧
    searches traced.work ≤ options.maxSignatureChecks + 1 ∧
    (∀ depth, .search depth ∈ traced.work → depth ≤ options.maxPathLength) ∧
    caChecks traced.work ≤ (options.maxSignatureChecks + 1) * intermediates.length ∧
    (∀ err, validatePath ring endEntity intermediates anchors options = .error err →
      traced.value.2 = []) := by
  rw [validatePath_eq, tracedValidatePath]
  cases hcheck : checkEndEntity endEntity options with
  | error err =>
      refine ⟨rfl, Nat.zero_le _, Nat.zero_le _, ?_, Nat.zero_le _, fun _ _ => rfl⟩
      intro depth hmem
      exact absurd hmem List.not_mem_nil
  | ok _ =>
      have hlength : options.maxPathLength ≠ 0 := by
        simp only [checkEndEntity, bind_eq_ok, refuse_eq_ok] at hcheck
        obtain ⟨_, -, _, -, _, -, hlength⟩ := hcheck
        exact hlength
      obtain ⟨hverifications, hsearches, hdepth, hchecks⟩ :=
        tracedFound_work { ring, endEntity, intermediates, anchors, options } hlength
      exact ⟨rfl, hverifications, hsearches, hdepth, hchecks, fun _ h => tracedFound_stack h⟩

end RustyTls
