import RustyTls.PathTrials

/-!
# RustyTls.PathErrors

What the error of a failed path search means.

The error reported is settled where the search first finds its budget at zero: it is the exhausted
budget only if nothing as specific has been kept by then (`validate_starved`). Which errors are met
before that is a matter of the certificates: they are those of the trials that come before the one
that starves (`starvation_iff`).
-/

namespace RustyTls

open Core Der

variable {input : PathInput}

/-! ### No trial fails with an exhausted budget -/

theorem checkCa_error {certificate : Certificate} {time : Int} {e : PathError}
    (h : checkCa certificate time = .error e) : e ≠ .searchBudgetExhausted := by
  intro heq
  obtain rfl := heq
  simp only [checkCa, checkValidity, checkNoUnhandledCritical, bind_eq_error, refuse] at h
  grind

theorem mapErr_name_ne {α : Type} {x : Except NameError α} {e : PathError}
    (h : mapErr PathError.name x = .error e) : e ≠ .searchBudgetExhausted := by
  cases x with
  | ok a => simp at h
  | error err =>
      obtain rfl : PathError.name err = e := by simpa using h
      simp

theorem checkPathLength_error {intermediates : List Certificate} {used : List Nat}
    {e : PathError} (h : checkPathLength intermediates used = .error e) :
    e ≠ .searchBudgetExhausted := by
  have hfold : ∀ (chain : List Certificate) (remaining : Nat),
      chain.foldlM pathLengthStep remaining = .error e → e ≠ .searchBudgetExhausted := by
    intro chain
    induction chain with
    | nil => simp
    | cons c rest ih =>
        intro remaining hstep
        rw [List.foldlM_cons, bind_eq_error] at hstep
        rcases hstep with hstep | ⟨left, -, hrest⟩
        · simp only [pathLengthStep, bind_eq_error, refuse] at hstep
          grind
        · exact ih left hrest
  simp only [checkPathLength, bind_eq_error] at h
  rcases h with h | ⟨_, -, h⟩
  · exact hfold _ _ h
  · simp at h

theorem checkChainConstraints_error {chain : List Certificate} {e : PathError}
    (h : checkChainConstraints chain = .error e) : e ≠ .searchBudgetExhausted := by
  induction chain with
  | nil => simp [checkChainConstraints] at h
  | cons x rest ih =>
      cases rest with
      | nil => simp [checkChainConstraints] at h
      | cons y rest =>
          simp only [checkChainConstraints, bind_eq_error] at h
          rcases h with h | ⟨_, -, h⟩
          · exact mapErr_name_ne h
          · exact ih h

theorem finalize_error {anchor : TrustAnchor} {used : List Nat} {e : PathError}
    (h : finalize anchor input.endEntity input.intermediates used = .error e) :
    e ≠ .searchBudgetExhausted := by
  simp only [finalize, bind_eq_error] at h
  rcases h with h | ⟨_, -, h | ⟨_, -, h⟩⟩
  · exact checkPathLength_error h
  · unfold checkAnchorConstraints at h
    cases hbody : anchor.nameConstraints with
    | none => simp [hbody] at h
    | some body =>
        rw [hbody] at h
        exact mapErr_name_ne h
  · exact checkChainConstraints_error h

theorem verdict_error {trial : Trial} {e : PathError} (h : trial.verdict input = .error e) :
    e ≠ .searchBudgetExhausted := by
  cases trial with
  | anchor used current trusted index =>
      rw [Trial.verdict, bind_eq_error] at h
      rcases h with hverify | ⟨_, -, hfinal⟩
      · obtain ⟨err, -, rfl⟩ := mapErr_eq_error.mp hverify
        simp
      · exact finalize_error hfinal
  | intermediate used current candidate index =>
      rw [Trial.verdict, bind_eq_error] at h
      rcases h with hca | ⟨_, -, hverify⟩
      · exact checkCa_error hca
      · obtain ⟨err, -, rfl⟩ := mapErr_eq_error.mp hverify
        simp

/-- No trial leaves an exhausted budget behind. -/
theorem foldl_mark_ne {front : List Trial} {best : PathError} (h : best ≠ .searchBudgetExhausted) :
    front.foldl (Trial.mark input) best ≠ .searchBudgetExhausted := by
  induction front generalizing best with
  | nil => exact h
  | cons trial front ih =>
      refine ih ?_
      unfold Trial.mark
      split
      · exact h
      · next e hverdict =>
          unfold moreSpecific
          split
          · exact verdict_error hverdict
          · exact h

/-! ### The trials before the one that starves -/

theorem specificity_moreSpecific (best candidate : PathError) :
    specificity (moreSpecific best candidate)
      = max (specificity best) (specificity candidate) := by
  unfold moreSpecific
  split <;> omega

/-- What some trials leave is specific if what there was before is, or the error of one of them. -/
theorem specificity_foldl_mark {front : List Trial} {best : PathError} {bound : Nat} :
    specificity (front.foldl (Trial.mark input) best) < bound ↔ specificity best < bound ∧
      ∀ trial ∈ front, ∀ err, trial.verdict input = .error err → specificity err < bound := by
  induction front generalizing best with
  | nil => simp
  | cons trial front ih =>
      rw [List.foldl_cons, ih, List.forall_mem_cons, ← and_assoc]
      refine and_congr_left fun _ => ?_
      cases hverdict : trial.verdict input with
      | ok _ => simp [Trial.mark, hverdict]
      | error err => simp [Trial.mark, hverdict, specificity_moreSpecific]

/-- The trials before a place in the list. -/
theorem mem_before_iff (hpos : 0 < input.options.maxPathLength) {front rest : List Trial}
    {trial earlier : Trial} (hsplit : input.trials = front ++ trial :: rest) :
    earlier ∈ front ↔ earlier.Before input trial := by
  rw [mem_front_iff (trials_sorted _ _ _ _) hsplit, ← PathInput.trials, mem_trials hpos, Trial.Before]

/-- A trial that starves, and the trials before it in the list. -/
theorem starves_iff (hpos : 0 < input.options.maxPathLength) {front rest : List Trial}
    {trial : Trial} (hsplit : input.trials = front ++ trial :: rest) :
    trial.Starves input ↔ trial.checks input = true ∧
      front.countP (Trial.checks input) = input.options.maxSignatureChecks ∧
      ∀ earlier ∈ front, earlier.ends input = false := by
  have hnodup : front.Nodup := by
    have hsorted := trials_sorted input (input.options.maxPathLength - 1) [] input.endEntity
    rw [← PathInput.trials, hsplit] at hsorted
    refine (List.pairwise_append.mp hsorted).1.imp ?_
    intro a b hlt heq
    exact lt_irrefl _ (heq ▸ hlt)
  rw [countP_eq_iff hnodup]
  simp only [mem_before_iff hpos hsplit]
  constructor
  · intro h
    exact ⟨h.checks, h.spent, h.unended⟩
  · intro h
    obtain ⟨hchecks, hspent, hunended⟩ := h
    refine ⟨(mem_trials hpos).mp ?_, hchecks, hspent, hunended⟩
    rw [hsplit]
    exact List.mem_append_right _ List.mem_cons_self

theorem pos_of_checkFirst (h : input.checkFirst = .ok ()) : 0 < input.options.maxPathLength := by
  simp only [PathInput.checkFirst, bind_eq_ok, refuse_eq_ok] at h
  omega

/-- A search finds its budget at zero where a trial starves, with what the trials before it left. -/
theorem starvation_iff {held : PathError} : input.starvation = some held ↔
    input.checkFirst = .ok () ∧ ∃ front trial rest, input.trials = front ++ trial :: rest ∧
      trial.Starves input ∧ held = front.foldl (Trial.mark input) .noPathToTrustAnchor := by
  cases hfirst : input.checkFirst with
  | error e => simp [PathInput.starvation, hfirst]
  | ok _ =>
      have hpos := pos_of_checkFirst hfirst
      have htells : TellsSearch input.starvation
          (search input (input.options.maxPathLength - 1) input.endEntity input.start) []
          (input.attempts.go input.trials input.options.maxSignatureChecks
            .noPathToTrustAnchor) := by
        rw [PathInput.starvation, hfirst]
        exact search_tells input _ input.endEntity input.start
      have hgo : input.starvation = some held ↔
          input.attempts.go input.trials input.options.maxSignatureChecks .noPathToTrustAnchor
            = .starved held := by
        cases hout : input.attempts.go input.trials input.options.maxSignatureChecks
            .noPathToTrustAnchor with
        | ended =>
            rw [hout] at htells
            simp [htells.1]
        | starved other =>
            rw [hout] at htells
            have hstarves : input.starvation = some other := htells
            simp [hstarves]
        | next budget best =>
            rw [hout] at htells
            simp [htells.1]
      rw [hgo, Attempts.go_eq_starved_iff]
      constructor
      · intro h
        obtain ⟨front, trial, rest, hsplit, hchecks, hspent, hunended, hheld⟩ := h
        exact ⟨rfl, front, trial, rest, hsplit,
          (starves_iff hpos hsplit).mpr ⟨hchecks, hspent, hunended⟩, hheld⟩
      · intro h
        obtain ⟨-, front, trial, rest, hsplit, hstarves, hheld⟩ := h
        obtain ⟨hchecks, hspent, hunended⟩ := (starves_iff hpos hsplit).mp hstarves
        exact ⟨front, trial, rest, hsplit, hchecks, hspent, hunended, hheld⟩

/-- A search that ran out fails with what it held then, or with the exhausted budget if that
was not specific. -/
theorem validate_starved {held : PathError} (h : input.starvation = some held) :
    input.validate = .error (settle held) ∧ held ≠ .searchBudgetExhausted := by
  obtain ⟨hfirst, front, trial, rest, -, -, hheld⟩ := starvation_iff.mp h
  refine ⟨?_, ?_⟩
  · rw [PathInput.starvation, hfirst] at h
    have hres := (search_decides input _ input.endEntity input.start).starves held h
    simp only [validate_eq_search, hfirst, ok_bind, hres]
  · rw [hheld]
    exact foldl_mark_ne (by simp)

/-! ### Which errors mean what they say -/

/-- No error but an exhausted budget is reported while there is a valid path. -/
def Honest (input : PathInput) : Prop :=
  ∀ e, input.validate = .error e → e ≠ .searchBudgetExhausted → ¬ HasPath input

/-- Whenever the search finds its budget at zero, the exhausted budget is what is reported. -/
def ReportsExhaustion (input : PathInput) : Prop :=
  ∀ held, input.starvation = some held → input.validate = .error .searchBudgetExhausted

/-- Nothing but bad signatures is met before the budget is found at zero: of the trials that come
before the one that takes a check too many, none fails with a more specific error. -/
def Unmasked (input : PathInput) : Prop :=
  input.checkFirst = .ok () → ∀ trial earlier : Trial, trial.Starves input →
    earlier.Before input trial → ∀ err, earlier.verdict input = .error err → specificity err < 2

/-- What is held where the budget is found at zero is not specific when nothing met before is. -/
theorem unmasked_iff : Unmasked input ↔
    ∀ held, input.starvation = some held → specificity held < 2 := by
  constructor
  · intro h held hheld
    obtain ⟨hfirst, front, trial, rest, hsplit, hstarves, rfl⟩ := starvation_iff.mp hheld
    refine specificity_foldl_mark.mpr ⟨by decide, ?_⟩
    intro earlier hearlier
    have hbefore := (mem_before_iff (pos_of_checkFirst hfirst) hsplit).mp hearlier
    exact h hfirst trial earlier hstarves hbefore
  · intro h hfirst trial earlier hstarves hbefore
    have hpos := pos_of_checkFirst hfirst
    obtain ⟨front, rest, hsplit⟩ := List.append_of_mem ((mem_trials hpos).mpr hstarves.arises)
    have hheld := starvation_iff.mpr ⟨hfirst, front, trial, rest, hsplit, hstarves, rfl⟩
    exact (specificity_foldl_mark.mp (h _ hheld)).2 earlier
      ((mem_before_iff hpos hsplit).mpr hbefore)

/-- A search that finds its budget at zero reports it exactly when what it holds there is not
specific. -/
theorem reportsExhaustion_iff : ReportsExhaustion input ↔ Unmasked input := by
  rw [unmasked_iff]
  refine forall₂_congr fun held hheld => ?_
  obtain ⟨herr, hne⟩ := validate_starved hheld
  rw [herr, settle]
  split
  · next hplain => simp [hplain]
  · next hspecific => simp [hspecific, hne]

theorem honest_of_unmasked (hmax : input.options.maxPathLength < 2 ^ 64)
    (hunmasked : Unmasked input) : Honest input := by
  intro e herr hne hpath
  cases hstarved : input.starvation with
  | some held =>
      rw [reportsExhaustion_iff.mpr hunmasked held hstarved] at herr
      exact hne (Except.error.inj herr).symm
  | none =>
      obtain ⟨path, hok⟩ := (validate_isOk_iff hmax hstarved).mpr hpath
      rw [hok] at herr
      cases herr

/-- Where something is masked, the error misleads if there is a valid path. -/
theorem honest_iff (hmax : input.options.maxPathLength < 2 ^ 64) :
    Honest input ↔ Unmasked input ∨ ¬ HasPath input := by
  constructor
  · intro hhonest
    by_cases hunmasked : Unmasked input
    · exact .inl hunmasked
    · rw [unmasked_iff] at hunmasked
      push Not at hunmasked
      obtain ⟨held, hheld, hspecific⟩ := hunmasked
      obtain ⟨herr, hne⟩ := validate_starved hheld
      rw [settle, if_neg (by omega)] at herr
      exact .inr (hhonest held herr hne)
  · intro h
    rcases h with hunmasked | hnone
    · exact honest_of_unmasked hmax hunmasked
    · exact fun _ _ _ => hnone

/-- The error of a failed search means what it says, and one that stopped for want of checks says
so, exactly when nothing but bad signatures is met before the budget is found at zero. -/
theorem validatePath_honest_iff (input : PathInput)
    (hmax : input.options.maxPathLength < 2 ^ 64) :
    Honest input ∧ ReportsExhaustion input ↔ Unmasked input := by
  constructor
  · intro h
    exact reportsExhaustion_iff.mp h.2
  · intro hunmasked
    exact ⟨honest_of_unmasked hmax hunmasked, reportsExhaustion_iff.mpr hunmasked⟩

/-- Nothing is masked when the checks are enough. -/
theorem validatePath_honest_iff_renewed :
    (renewedInput 2).starvation = none ∧ Unmasked (renewedInput 2) ∧ Honest (renewedInput 2) ∧
      ReportsExhaustion (renewedInput 2) := by
  have hbudget : (renewedInput 2).starvation = none := rfl
  have hunmasked : Unmasked (renewedInput 2) := by
    rw [unmasked_iff, hbudget]
    simp
  exact ⟨hbudget, hunmasked, (validatePath_honest_iff (renewedInput 2) (by decide)).mpr hunmasked⟩

/-- With one check the search runs out below the anchor, and what it reports is the CA that
expired, which is not on the valid path there is. -/
theorem validatePath_masked :
    (renewedInput 1).starvation = some (.expired 10) ∧
    (renewedInput 1).validate = .error (.expired 10) ∧ HasPath (renewedInput 1) ∧
    ¬ Honest (renewedInput 1) ∧ ¬ ReportsExhaustion (renewedInput 1) := by
  have hstarved : (renewedInput 1).starvation = some (.expired 10) := rfl
  have herr : (renewedInput 1).validate = .error (.expired 10) := rfl
  have hpath : HasPath (renewedInput 1) := by
    -- The checks to spend are not a condition on a path.
    have hok : (renewedInput 2).validate = .ok ⟨0, [1]⟩ := rfl
    obtain ⟨used, cas, anchor, hnodup, hspell, hmem, hvalid⟩ := hasPath_of_validate hok
    refine ⟨used, cas, anchor, hnodup, hspell, hmem, ?_⟩
    exact ⟨⟨hvalid.linked, hvalid.anchored, hvalid.short, hvalid.inDate, hvalid.understood,
      hvalid.isCa, hvalid.certSign, hvalid.pathLen, hvalid.eku, hvalid.anchorNames,
      hvalid.caNames⟩, hvalid.purpose⟩
  refine ⟨hstarved, herr, hpath, fun hhonest => hhonest _ herr (by simp) hpath, ?_⟩
  intro hreports
  have hexhausted := hreports _ hstarved
  rw [herr] at hexhausted
  cases hexhausted

end RustyTls
