import RustyTls.Core.Attempts
import RustyTls.PathComplete

/-!
# RustyTls.PathTrials

The trials of a path search, and the order in which they come.

A search goes up from the end-entity certificate: on each stack of CAs that it can build it tries
the anchors, then the intermediates, and where one of these issued the top of the stack it goes on
above it. Which trials there are (`Trial.Arises`), what comes of each (`Trial.verdict`) and which
comes first (`Trial.place`) is a matter of the certificates and of the order they are given in. The
budget only says at which trial the search ends.

`trials` lists them, in order (`trials_sorted`) and completely (`mem_trials`), and the search goes
through this list as through attempts under a budget (`search_tells`).
-/

namespace RustyTls

open Core Der

/-- A stack of CAs that can be built above the end-entity certificate, and the certificate at its
top. -/
inductive Stacked (input : PathInput) : List Nat → Certificate → Prop
  | leaf : Stacked input [] input.endEntity
  | issued {used : List Nat} {current candidate : Certificate} {index : Nat}
      (hbelow : Stacked input used current)
      (hroom : used.length + 1 < input.options.maxPathLength)
      (hget : input.intermediates[index]? = some candidate) (hfresh : index ∉ used)
      (hca : checkCa candidate input.options.time = .ok ())
      (hissued : IssuedBy input.ring current candidate) :
      Stacked input (used ++ [index]) candidate

/-- An issuer tried for the certificate at the top of a stack. -/
inductive Trial
  | anchor (used : List Nat) (current : Certificate) (trusted : TrustAnchor) (index : Nat)
  | intermediate (used : List Nat) (current candidate : Certificate) (index : Nat)
  deriving DecidableEq

namespace Trial

/-- The stack can be built, and the issuer has the name that its top asks for. -/
def Arises (input : PathInput) : Trial → Prop
  | .anchor used current trusted index =>
      Stacked input used current ∧ input.anchors[index]? = some trusted ∧
        trusted.subject = current.issuer
  | .intermediate used current candidate index =>
      Stacked input used current ∧ used.length + 1 < input.options.maxPathLength ∧
        input.intermediates[index]? = some candidate ∧ index ∉ used ∧
        candidate.subject = current.issuer

/-- What comes of a trial: an intermediate is to be a CA, the issuer's key is to verify the
signature, and a path up to an anchor is to obey the rules about whole paths. -/
def verdict (input : PathInput) : Trial → Except PathError Unit
  | .anchor used current trusted _ => do
      mapErr PathError.signature (verifySignature input.ring current trusted.publicKey)
      finalize trusted input.endEntity input.intermediates used
  | .intermediate _ current candidate _ => do
      checkCa candidate input.options.time
      mapErr PathError.signature
        (verifySignature input.ring current candidate.subjectPublicKeyInfo)

/-- A trial takes a signature check, unless the intermediate is refused before. -/
def checks (input : PathInput) : Trial → Bool
  | .anchor .. => true
  | .intermediate _ _ candidate _ => (checkCa candidate input.options.time).isOk

/-- A trial completes a path. -/
def ends (input : PathInput) (trial : Trial) : Bool :=
  match trial with
  | .anchor .. => (trial.verdict input).isOk
  | .intermediate .. => false

/-- Where a trial comes, in the order of lists: on the stacks above an intermediate before the next
one, and the anchors before the intermediates. -/
def place (input : PathInput) : Trial → List Nat
  | .anchor used _ _ index => used.map (input.anchors.length + ·) ++ [index]
  | .intermediate used _ _ index =>
      used.map (input.anchors.length + ·) ++ [input.anchors.length + index]

/-- A trial that the search comes to earlier. -/
def Before (input : PathInput) (earlier trial : Trial) : Prop :=
  earlier.Arises input ∧ earlier.place input < trial.place input

/-- The trial that finds the budget at zero: it takes a check, as many as there are to spend were
taken before, and no path was completed. -/
structure Starves (input : PathInput) (trial : Trial) : Prop where
  arises : trial.Arises input
  checks : trial.checks input = true
  spent : {earlier : Trial | earlier.Before input trial ∧ earlier.checks input = true}.encard
    = input.options.maxSignatureChecks
  unended : ∀ earlier : Trial, earlier.Before input trial → earlier.ends input = false

end Trial

/-! ### The trials as a list -/

variable {input : PathInput}

/-- The anchors tried on a stack. -/
def anchorTrials (used : List Nat) (current : Certificate) (as : List (TrustAnchor × Nat)) :
    List Trial :=
  (as.filter fun entry => entry.1.subject = current.issuer).map fun entry =>
    .anchor used current entry.1 entry.2

/-- An intermediate tried on a stack, and what is tried above it. -/
def candidateTrials (input : PathInput) (above : List Nat → Certificate → List Trial)
    (used : List Nat) (current : Certificate) (entry : Certificate × Nat) : List Trial :=
  if entry.2 ∈ used ∨ entry.1.subject ≠ current.issuer then
    []
  else
    .intermediate used current entry.1 entry.2 ::
      match (Trial.intermediate used current entry.1 entry.2).verdict input with
      | .ok () => above (used ++ [entry.2]) entry.1
      | .error _ => []

/-- The trials from a stack on, in the order of a search that has all the checks it can use. -/
def trials (input : PathInput) : Nat → List Nat → Certificate → List Trial
  | 0, used, current => anchorTrials used current input.anchors.zipIdx
  | deeper + 1, used, current =>
      anchorTrials used current input.anchors.zipIdx ++
        input.intermediates.zipIdx.flatMap
          (candidateTrials input (trials input deeper) used current)

/-- All trials of a search. -/
def PathInput.trials (input : PathInput) : List Trial :=
  RustyTls.trials input (input.options.maxPathLength - 1) [] input.endEntity

/-! ### The search goes through the list -/

/-- The error kept of two. -/
def moreSpecific (best candidate : PathError) : PathError :=
  if specificity best < specificity candidate then candidate else best

theorem record_eq (s : SearchState) (candidate : PathError) :
    s.record candidate = { s with best := moreSpecific s.best candidate } := by
  unfold SearchState.record moreSpecific
  split <;> rfl

/-- The error kept after a trial. -/
def Trial.mark (input : PathInput) (best : PathError) (trial : Trial) : PathError :=
  match trial.verdict input with
  | .ok () => best
  | .error err => moreSpecific best err

/-- The trials as attempts under the budget of signature checks. What they leave is the error to
report. -/
def PathInput.attempts (input : PathInput) : Attempts Trial PathError where
  costs := Trial.checks input
  ends := Trial.ends input
  mark := Trial.mark input

section Attempts

variable {trial : Trial} {rest : List Trial} {budget : Nat} {best : PathError}

theorem checks_of_checkCa {used : List Nat} {current candidate : Certificate} {index : Nat}
    (hca : checkCa candidate input.options.time = .ok ()) :
    (Trial.intermediate used current candidate index).checks input = true := by
  rw [Trial.checks, hca]
  rfl

/-- Nothing is completed by a trial that fails. -/
theorem ends_of_error {err : PathError} (hverdict : trial.verdict input = .error err) :
    trial.ends input = false := by
  cases trial with
  | anchor used current trusted index =>
      rw [Trial.ends, hverdict]
      rfl
  | intermediate => rfl

/-- A trial that fails is passed by, and its error kept if it is the more specific. -/
theorem go_error {err : PathError} (hverdict : trial.verdict input = .error err)
    (hbudget : trial.checks input = true → budget ≠ 0) :
    input.attempts.go (trial :: rest) budget best
      = input.attempts.go rest (input.attempts.left budget trial) (moreSpecific best err) := by
  have hmark : input.attempts.mark best trial = moreSpecific best err := by
    simp only [PathInput.attempts, Trial.mark, hverdict]
  rw [Attempts.go_next hbudget (ends_of_error hverdict), hmark]

/-- A check is spent. -/
theorem left_of_checks (hchecks : trial.checks input = true) :
    input.attempts.left budget trial = budget - 1 :=
  if_pos hchecks

end Attempts

/-- The outcome of some trials tells how a loop of the search on a stack goes: whether it finds the
budget at zero, and what it fails with if it does not. -/
def Tells (used : List Nat) (starved : Option PathError) (Fails : SearchState → Prop) :
    Outcome PathError → Prop
  | .ended => starved = none ∧ ∀ s, ¬ Fails s
  | .starved held => starved = some held
  | .next budget best => starved = none ∧ Fails ⟨used, budget, best⟩

theorem searchAnchors_tells (input : PathInput) (current : Certificate) (as : List (TrustAnchor × Nat))
    (s : SearchState) :
    Tells s.used (starvationAnchors input current as s)
      (fun s' => searchAnchors input current as s = (.next, s'))
      (input.attempts.go (anchorTrials s.used current as) s.budget s.best) := by
  induction as generalizing s with
  | nil => exact ⟨rfl, rfl⟩
  | cons entry rest ih =>
      obtain ⟨anchor, index⟩ := entry
      rw [starvationAnchors, searchAnchors]
      by_cases hname : anchor.subject ≠ current.issuer
      · simpa [anchorTrials, hname] using ih s
      · have hcons : anchorTrials s.used current ((anchor, index) :: rest)
            = .anchor s.used current anchor index :: anchorTrials s.used current rest := by
          simp_all [anchorTrials]
        rw [hcons, if_neg hname, if_neg hname]
        by_cases hbudget : s.budget = 0
        · rw [hbudget, Attempts.go_starves rfl, if_pos rfl]
          rfl
        · rw [if_neg hbudget, if_neg hbudget]
          have hverdict : (Trial.anchor s.used current anchor index).verdict input = (do
              mapErr PathError.signature (verifySignature input.ring current anchor.publicKey)
              finalize anchor input.endEntity input.intermediates s.used) := rfl
          cases hverify : verifySignature input.ring current anchor.publicKey with
          | error err =>
              rw [hverify] at hverdict
              rw [go_error hverdict fun _ => hbudget, left_of_checks rfl]
              dsimp only
              rw [record_eq]
              exact ih ⟨s.used, s.budget - 1, moreSpecific s.best (.signature err)⟩
          | ok _ =>
              cases hfinal : finalize anchor input.endEntity input.intermediates s.used with
              | ok _ =>
                  rw [hverify, hfinal] at hverdict
                  have hends : (Trial.anchor s.used current anchor index).ends input = true := by
                    rw [Trial.ends, hverdict]
                    rfl
                  rw [Attempts.go_ends hbudget hends]
                  exact ⟨rfl, by simp⟩
              | error err =>
                  rw [hverify, hfinal] at hverdict
                  rw [go_error hverdict fun _ => hbudget, left_of_checks rfl]
                  dsimp only
                  rw [record_eq]
                  exact ih ⟨s.used, s.budget - 1, moreSpecific s.best err⟩

/-- What the trials tell about a search. -/
abbrev TellsSearch (starved : Option PathError) (result : Option Nat × SearchState)
    (used : List Nat) : Outcome PathError → Prop :=
  Tells used starved fun s => result = (none, s)

/-- Above an intermediate the search goes as the recursive call does, and then on to the rest with
what the call leaves. -/
theorem tells_above {used : List Nat} {index budget : Nat} {best : PathError}
    {starved : Option PathError} {result : Option Nat × SearchState} {above rest : List Trial}
    (starvedRest : SearchState → Option PathError)
    (resultRest : SearchState → Option Nat × SearchState) :
    TellsSearch starved result (used ++ [index]) (input.attempts.go above budget best) →
    (∀ budget best, TellsSearch (starvedRest ⟨used, budget, best⟩)
      (resultRest ⟨used, budget, best⟩) used (input.attempts.go rest budget best)) →
    TellsSearch
      (match starved with
        | some held => some held
        | none =>
            match result with
            | (some _, _) => none
            | (none, s) => starvedRest { s with used := s.used.dropLast })
      (match result with
        | (some anchor, s) => (some anchor, s)
        | (none, s) => resultRest { s with used := s.used.dropLast })
      used (input.attempts.go (above ++ rest) budget best) := by
  intro hcall hrest
  rw [Attempts.go_append]
  cases hout : input.attempts.go above budget best with
  | ended =>
      rw [hout] at hcall
      obtain ⟨rfl, hnever⟩ := hcall
      obtain ⟨found, s⟩ := result
      cases found with
      | some anchor => exact ⟨rfl, by simp⟩
      | none => exact absurd rfl (hnever s)
  | starved held =>
      rw [hout] at hcall
      obtain rfl : starved = some held := hcall
      rfl
  | next budget best =>
      rw [hout] at hcall
      obtain ⟨rfl, rfl⟩ := hcall
      simp only [List.dropLast_concat]
      exact hrest budget best

theorem searchCandidates_tells (current : Certificate)
    {recurse : Certificate → SearchState → Option Nat × SearchState}
    {starves : Certificate → SearchState → Option PathError}
    {above : List Nat → Certificate → List Trial}
    (hrec : ∀ c s, TellsSearch (starves c s) (recurse c s) s.used
      (input.attempts.go (above s.used c) s.budget s.best))
    (candidates : List (Certificate × Nat)) (s : SearchState) :
    TellsSearch (starvationCandidates input current recurse starves candidates s)
      (searchCandidates input current recurse candidates s) s.used
      (input.attempts.go (candidates.flatMap (candidateTrials input above s.used current)) s.budget
        s.best) := by
  induction candidates generalizing s with
  | nil => exact ⟨rfl, rfl⟩
  | cons entry rest ih =>
      obtain ⟨candidate, index⟩ := entry
      rw [starvationCandidates, searchCandidates, List.flatMap_cons, candidateTrials]
      by_cases hskip : index ∈ s.used ∨ candidate.subject ≠ current.issuer
      · have hnext := ih s
        rcases hskip with hused | hname
        · simpa only [if_pos (Or.inl hused), if_pos hused, List.nil_append] using hnext
        · by_cases hused : index ∈ s.used
          · simpa only [if_pos (Or.inl hused), if_pos hused, List.nil_append] using hnext
          · simpa only [if_pos (Or.inr hname), if_neg hused, if_pos hname, List.nil_append]
              using hnext
      · obtain ⟨hused, hname⟩ := not_or.mp hskip
        have hverdict : (Trial.intermediate s.used current candidate index).verdict input = (do
            checkCa candidate input.options.time
            mapErr PathError.signature
              (verifySignature input.ring current candidate.subjectPublicKeyInfo)) := rfl
        rw [if_neg hskip, if_neg hused, if_neg hname, if_neg hused, if_neg hname,
          List.cons_append]
        cases hca : checkCa candidate input.options.time with
        | error err =>
            -- Refused before its signature is looked at: no check is spent.
            rw [hca] at hverdict
            have hchecks : (Trial.intermediate s.used current candidate index).checks input
                = false := by
              rw [Trial.checks, hca]
              rfl
            rw [go_error hverdict (by simp [hchecks]), hverdict]
            have hleft : input.attempts.left s.budget
                (.intermediate s.used current candidate index) = s.budget := by
              simp [Attempts.left, PathInput.attempts, hchecks]
            rw [hleft]
            dsimp only
            rw [record_eq]
            exact ih ⟨s.used, s.budget, moreSpecific s.best err⟩
        | ok _ =>
            have hchecks : (Trial.intermediate s.used current candidate index).checks input = true :=
              checks_of_checkCa hca
            dsimp only
            by_cases hbudget : s.budget = 0
            · rw [hbudget, Attempts.go_starves hchecks, if_pos rfl]
              rfl
            · rw [if_neg hbudget, if_neg hbudget]
              cases hverify : verifySignature input.ring current
                  candidate.subjectPublicKeyInfo with
              | error err =>
                  rw [hca, hverify] at hverdict
                  rw [go_error hverdict fun _ => hbudget, left_of_checks hchecks, hverdict]
                  dsimp only
                  rw [record_eq]
                  exact ih ⟨s.used, s.budget - 1, moreSpecific s.best (.signature err)⟩
              | ok _ =>
                  rw [hca, hverify] at hverdict
                  have hmark : input.attempts.mark s.best
                      (.intermediate s.used current candidate index) = s.best := by
                    simp only [PathInput.attempts, Trial.mark, hverdict, ok_bind, mapErr]
                  rw [Attempts.go_next (fun _ => hbudget) rfl, left_of_checks hchecks, hmark,
                    hverdict]
                  dsimp only
                  -- What is tried above it is the recursive call's, with what is left of the budget.
                  rw [mapErr, ok_bind]
                  exact tells_above (starvationCandidates input current recurse starves rest)
                    (searchCandidates input current recurse rest)
                    (hrec candidate { s.spend with used := s.used ++ [index] })
                    fun budget best => ih ⟨s.used, budget, best⟩

/-- It is enough to tell how a search goes from where the loop over the anchors leaves it. -/
theorem search_tells_of_next {deeper : Nat} {current : Certificate} {s : SearchState}
    {more : List Trial}
    (hnext : ∀ s' : SearchState, s'.used = s.used → TellsSearch
      (match deeper with
        | 0 => none
        | deeper + 1 => starvationCandidates input current (search input deeper)
            (starvation input deeper) input.intermediates.zipIdx s')
      (match deeper with
        | 0 => (none, s')
        | deeper + 1 =>
            searchCandidates input current (search input deeper) input.intermediates.zipIdx s')
      s.used (input.attempts.go more s'.budget s'.best))
    (htrials : trials input deeper s.used current
      = anchorTrials s.used current input.anchors.zipIdx ++ more) :
    TellsSearch (starvation input deeper current s) (search input deeper current s) s.used
      (input.attempts.go (trials input deeper s.used current) s.budget s.best) := by
  have hanchors := searchAnchors_tells input current input.anchors.zipIdx s
  rw [starvation, search, htrials, Attempts.go_append]
  cases hout : input.attempts.go (anchorTrials s.used current input.anchors.zipIdx) s.budget
      s.best with
  | ended =>
      rw [hout] at hanchors
      obtain ⟨hstarves, hnever⟩ := hanchors
      rw [hstarves]
      dsimp only
      rcases hres : searchAnchors input current input.anchors.zipIdx s with ⟨flow, s'⟩
      cases flow with
      | found anchor => exact ⟨rfl, by simp⟩
      | stop => exact absurd hres (searchAnchors_not_starved hstarves)
      | next => exact absurd hres (hnever s')
  | starved held =>
      rw [hout] at hanchors
      have hstarves : starvationAnchors input current input.anchors.zipIdx s = some held := hanchors
      rw [hstarves]
      rfl
  | next budget best =>
      rw [hout] at hanchors
      obtain ⟨hstarves, hres⟩ := hanchors
      rw [hstarves, hres]
      exact hnext ⟨s.used, budget, best⟩ rfl

/-- The search goes through its trials as through attempts. -/
theorem search_tells (input : PathInput) (deeper : Nat) :
    ∀ (current : Certificate) (s : SearchState),
      TellsSearch (starvation input deeper current s) (search input deeper current s) s.used
        (input.attempts.go (trials input deeper s.used current) s.budget s.best) := by
  induction deeper with
  | zero =>
      intro current s
      refine search_tells_of_next ?_ (List.append_nil _).symm
      intro s' hused
      exact ⟨rfl, by rw [← hused]⟩
  | succ deeper ih =>
      intro current s
      refine search_tells_of_next ?_ rfl
      intro s' hused
      rw [← hused]
      exact searchCandidates_tells current ih input.intermediates.zipIdx s'

/-! ### What is in the list -/

theorem mem_anchorTrials {trial : Trial} {used : List Nat} {current : Certificate} :
    trial ∈ anchorTrials used current input.anchors.zipIdx ↔
      ∃ trusted index, input.anchors[index]? = some trusted ∧ trusted.subject = current.issuer ∧
        trial = .anchor used current trusted index := by
  simp [anchorTrials, List.mem_zipIdx_iff_getElem?, eq_comm, and_assoc]

theorem verdict_intermediate (used : List Nat) {current candidate : Certificate} (index : Nat)
    (hname : candidate.subject = current.issuer) :
    (Trial.intermediate used current candidate index).verdict input = .ok () ↔
      checkCa candidate input.options.time = .ok () ∧ IssuedBy input.ring current candidate := by
  rw [Trial.verdict, bind_eq_ok]
  constructor
  · intro h
    obtain ⟨⟨⟩, hca, hverify⟩ := h
    exact ⟨hca, hname.symm, mapErr_eq_ok.mp hverify⟩
  · intro h
    obtain ⟨hca, -, hverify⟩ := h
    exact ⟨(), hca, mapErr_eq_ok.mpr hverify⟩

theorem mem_candidateTrials {trial : Trial} {above : List Nat → Certificate → List Trial}
    {used : List Nat} {current candidate : Certificate} {index : Nat} :
    trial ∈ candidateTrials input above used current (candidate, index) ↔
      index ∉ used ∧ candidate.subject = current.issuer ∧
        (trial = .intermediate used current candidate index ∨
          (checkCa candidate input.options.time = .ok () ∧ IssuedBy input.ring current candidate) ∧
            trial ∈ above (used ++ [index]) candidate) := by
  unfold candidateTrials
  by_cases hskip : index ∈ used ∨ candidate.subject ≠ current.issuer
  · rw [if_pos hskip]
    rcases hskip with hused | hname
    · simp [hused]
    · simp [hname]
  · obtain ⟨hused, hname⟩ := not_or.mp hskip
    have hname := not_not.mp hname
    rw [if_neg hskip, List.mem_cons, ← verdict_intermediate used index hname]
    cases hverdict : (Trial.intermediate used current candidate index).verdict input with
    | error err => simp [hused, hname]
    | ok _ => simp [hused, hname]

theorem mem_trials_succ {trial : Trial} {deeper : Nat} {used : List Nat} {current : Certificate} :
    trial ∈ trials input (deeper + 1) used current ↔
      trial ∈ anchorTrials used current input.anchors.zipIdx ∨
        ∃ candidate index, input.intermediates[index]? = some candidate ∧
          trial ∈ candidateTrials input (trials input deeper) used current (candidate, index) := by
  simp [trials, List.mem_zipIdx_iff_getElem?]

/-- The anchors are tried on every stack. -/
theorem anchorTrials_subset (deeper : Nat) {used : List Nat} {current : Certificate} :
    anchorTrials used current input.anchors.zipIdx ⊆ trials input deeper used current := by
  intro trial h
  cases deeper with
  | zero => exact h
  | succ deeper => exact mem_trials_succ.mpr (.inl h)

/-! ### The list is in order -/

theorem zipIdx_sorted {α : Type} (xs : List α) :
    xs.zipIdx.Pairwise fun a b => a.2 < b.2 := by
  have hrange : (xs.zipIdx.map Prod.snd).Pairwise (· < ·) := by
    rw [List.zipIdx_map_snd]
    exact List.pairwise_lt_range'
  exact List.pairwise_map.mp hrange

/-- The place of a trial above a stack begins with the stack. -/
theorem place_of_mem_trials {deeper : Nat} {trial : Trial} {used : List Nat} {current : Certificate}
    (h : trial ∈ trials input deeper used current) :
    ∃ index more, trial.place input = used.map (input.anchors.length + ·) ++ index :: more := by
  induction deeper generalizing used current with
  | zero =>
      obtain ⟨trusted, index, -, -, rfl⟩ := mem_anchorTrials.mp h
      exact ⟨index, [], rfl⟩
  | succ deeper ih =>
      rcases mem_trials_succ.mp h with h | ⟨candidate, index, -, h⟩
      · obtain ⟨trusted, index, -, -, rfl⟩ := mem_anchorTrials.mp h
        exact ⟨index, [], rfl⟩
      · obtain ⟨-, -, rfl | ⟨-, habove⟩⟩ := mem_candidateTrials.mp h
        · exact ⟨_, [], rfl⟩
        · obtain ⟨next, more, hplace⟩ := ih habove
          exact ⟨input.anchors.length + index, next :: more, by simp [hplace]⟩

/-- And, above an intermediate, with the intermediate. -/
theorem place_of_mem_candidateTrials {deeper : Nat} {trial : Trial} {used : List Nat}
    {current candidate : Certificate} {index : Nat}
    (h : trial ∈ candidateTrials input (trials input deeper) used current (candidate, index)) :
    ∃ more, trial.place input
      = used.map (input.anchors.length + ·) ++ (input.anchors.length + index) :: more := by
  obtain ⟨-, -, rfl | ⟨-, habove⟩⟩ := mem_candidateTrials.mp h
  · exact ⟨[], rfl⟩
  · obtain ⟨next, more, hplace⟩ := place_of_mem_trials habove
    exact ⟨next :: more, by simp [hplace]⟩

theorem anchorTrials_sorted (used : List Nat) (current : Certificate) :
    (anchorTrials used current input.anchors.zipIdx).Pairwise
      (Trial.place input · < Trial.place input ·) := by
  refine List.pairwise_map.mpr (((zipIdx_sorted _).filter _).imp ?_)
  intro a b hlt
  exact List.append_left_lt (List.cons_lt_cons_iff.mpr (.inl hlt))

/-- An intermediate comes before what is above it. -/
theorem candidateTrials_sorted {deeper : Nat} {used : List Nat} {current candidate : Certificate}
    {index : Nat}
    (hsorted : ∀ (used : List Nat) (current : Certificate),
      (trials input deeper used current).Pairwise
        (Trial.place input · < Trial.place input ·)) :
    (candidateTrials input (trials input deeper) used current (candidate, index)).Pairwise
      (Trial.place input · < Trial.place input ·) := by
  unfold candidateTrials
  split
  · exact List.Pairwise.nil
  · split
    · refine List.pairwise_cons.mpr ⟨?_, hsorted _ _⟩
      intro trial habove
      obtain ⟨next, more, hplace⟩ := place_of_mem_trials habove
      rw [hplace, List.map_append, List.append_assoc]
      exact List.append_left_lt (List.cons_lt_cons_iff.mpr (.inr ⟨rfl, List.nil_lt_cons _ _⟩))
    · exact List.pairwise_singleton _ _

/-- The search goes through its trials in their order. -/
theorem trials_sorted (input : PathInput) (deeper : Nat) (used : List Nat) (current : Certificate) :
    (trials input deeper used current).Pairwise
      (Trial.place input · < Trial.place input ·) := by
  induction deeper generalizing used current with
  | zero => exact anchorTrials_sorted used current
  | succ deeper ih =>
      refine List.pairwise_append.mpr ⟨anchorTrials_sorted used current,
        List.pairwise_flatMap.mpr ⟨?_, ?_⟩, ?_⟩
      · intro entry _
        exact candidateTrials_sorted ih
      · refine (zipIdx_sorted _).imp ?_
        intro a b hlt first hfirst second hsecond
        obtain ⟨more, hplace⟩ := place_of_mem_candidateTrials hfirst
        obtain ⟨more', hplace'⟩ := place_of_mem_candidateTrials hsecond
        rw [hplace, hplace']
        exact List.append_left_lt (List.cons_lt_cons_iff.mpr (.inl (by omega)))
      · intro first hfirst second hsecond
        obtain ⟨trusted, index, hget, -, rfl⟩ := mem_anchorTrials.mp hfirst
        obtain ⟨entry, -, hsecond⟩ := List.mem_flatMap.mp hsecond
        obtain ⟨more, hplace⟩ := place_of_mem_candidateTrials hsecond
        have hlt := (List.getElem?_eq_some_iff.mp hget).1
        rw [hplace]
        exact List.append_left_lt (List.cons_lt_cons_iff.mpr (.inl (by omega)))

/-! ### The list is complete -/

theorem arises_of_mem_trials {trial : Trial} {deeper : Nat} {used : List Nat}
    {current : Certificate} (hstacked : Stacked input used current)
    (hroom : used.length + deeper < input.options.maxPathLength)
    (h : trial ∈ trials input deeper used current) : trial.Arises input := by
  induction deeper generalizing used current with
  | zero =>
      obtain ⟨trusted, index, hget, hname, rfl⟩ := mem_anchorTrials.mp h
      exact ⟨hstacked, hget, hname⟩
  | succ deeper ih =>
      rcases mem_trials_succ.mp h with h | ⟨candidate, index, hget, h⟩
      · obtain ⟨trusted, index, hget, hname, rfl⟩ := mem_anchorTrials.mp h
        exact ⟨hstacked, hget, hname⟩
      · obtain ⟨hfresh, hname, rfl | ⟨⟨hca, hissued⟩, habove⟩⟩ := mem_candidateTrials.mp h
        · exact ⟨hstacked, by omega, hget, hfresh, hname⟩
        · refine ih (.issued hstacked (by omega) hget hfresh hca hissued) ?_ habove
          simp only [List.length_append, List.length_singleton]
          omega

/-- What is tried from a stack on is tried from its foot on. -/
theorem Stacked.trials_subset {used : List Nat} {current : Certificate}
    (h : Stacked input used current) (hpos : 0 < input.options.maxPathLength) :
    used.length < input.options.maxPathLength ∧
      trials input (input.options.maxPathLength - 1 - used.length) used current
        ⊆ input.trials := by
  induction h with
  | leaf => exact ⟨hpos, fun _ h => h⟩
  | @issued used current candidate index hbelow hroom hget hfresh hca hissued ih =>
      obtain ⟨-, hsub⟩ := ih
      rw [List.length_append, List.length_singleton]
      refine ⟨hroom, fun trial hmem => hsub ?_⟩
      have hdeeper : input.options.maxPathLength - 1 - used.length
          = input.options.maxPathLength - 1 - (used.length + 1) + 1 := by omega
      rw [hdeeper]
      exact mem_trials_succ.mpr (.inr ⟨candidate, index, hget, mem_candidateTrials.mpr
        ⟨hfresh, hissued.1.symm, .inr ⟨⟨hca, hissued⟩, hmem⟩⟩⟩)

/-- The trials of a search are those that arise. -/
theorem mem_trials {trial : Trial} (hpos : 0 < input.options.maxPathLength) :
    trial ∈ input.trials ↔ trial.Arises input := by
  constructor
  · exact arises_of_mem_trials .leaf (by simpa using Nat.sub_lt hpos Nat.one_pos)
  · intro h
    cases trial with
    | anchor used current trusted index =>
        obtain ⟨hstacked, hget, hname⟩ := h
        obtain ⟨-, hsub⟩ := hstacked.trials_subset hpos
        exact hsub (anchorTrials_subset _ (mem_anchorTrials.mpr ⟨trusted, index, hget, hname, rfl⟩))
    | intermediate used current candidate index =>
        obtain ⟨hstacked, hroom, hget, hfresh, hname⟩ := h
        obtain ⟨-, hsub⟩ := hstacked.trials_subset hpos
        have hdeeper : input.options.maxPathLength - 1 - used.length
            = input.options.maxPathLength - 1 - (used.length + 1) + 1 := by omega
        rw [hdeeper] at hsub
        exact hsub (mem_trials_succ.mpr (.inr ⟨candidate, index, hget, mem_candidateTrials.mpr
          ⟨hfresh, hname, .inl rfl⟩⟩))

end RustyTls
