import Mathlib.Logic.Relation
import RustyTls.DerCanonical
import RustyTls.X509

/-!
# RustyTls.SubjectAltNames

Where the `subjectAltName` iterator reads from.

An entry of the list is an element reached from its start by skipping whole elements
(`Reached`). The iterator does not stop at an element it cannot read: it goes on from
wherever the failed read left the cursor, which is inside that element. From there it may
find octets that happen to be an element, and report them as a name that is not an entry.
`genuine_iff` says exactly when it does not.
-/

namespace RustyTls

open Core Der

/-! ### The cursor of a read that may fail -/

section
variable {α β : Type}

/-- Where a read leaves the cursor, whether it succeeds or fails. -/
def cursorAfter (read : Read α) (r : Der.Reader) : Der.Reader :=
  match read r with
  | .ok _ r' => r'
  | .error _ r' => r'

/-- Even a failed read keeps the input and does not move the cursor back, nor over the end. -/
def Onward (read : Read α) : Prop :=
  ∀ r, (cursorAfter read r).input = r.input ∧ r.pos ≤ (cursorAfter read r).pos ∧
    (cursorAfter read r).pos ≤ max r.pos r.input.length

theorem Onward.bind {x : Read α} {f : α → Read β} (hx : Onward x) (hf : ∀ a, Onward (f a)) :
    Onward (x >>= f) := by
  intro r
  obtain ⟨hin, hpos, hend⟩ := hx r
  have hbind : (x >>= f) r = EStateM.bind x f r := rfl
  unfold cursorAfter at hin hpos hend ⊢
  rw [hbind, EStateM.bind]
  cases hread : x r with
  | error e r₁ =>
      rw [hread] at hin hpos hend
      exact ⟨hin, hpos, hend⟩
  | ok a r₁ =>
      rw [hread] at hin hpos hend
      simp only at hin hpos hend ⊢
      obtain ⟨hin', hpos', hend'⟩ := hf a r₁
      unfold cursorAfter at hin' hpos' hend'
      rw [hin] at hend'
      exact ⟨hin'.trans hin, Nat.le_trans hpos hpos', by omega⟩

theorem pure_onward (a : α) : Onward (pure a : Read α) :=
  fun _ => ⟨rfl, Nat.le_refl _, Nat.le_max_left _ _⟩

theorem throw_onward (e : DerError) : Onward (throw e : Read α) :=
  fun _ => ⟨rfl, Nat.le_refl _, Nat.le_max_left _ _⟩

theorem get_onward : Onward (get : Read Der.Reader) :=
  fun _ => ⟨rfl, Nat.le_refl _, Nat.le_max_left _ _⟩

theorem take_onward (n : Nat) : Onward (take n) := by
  intro r
  rw [cursorAfter, take_eq]
  split_ifs
  · exact ⟨rfl, Nat.le_refl _, Nat.le_max_left _ _⟩
  · exact ⟨rfl, Nat.le_refl _, Nat.le_max_left _ _⟩
  · exact ⟨rfl, Nat.le_add_right _ _, by simp only; omega⟩

theorem takeByte_onward : Onward takeByte := (take_onward 1).bind fun _ => pure_onward _

/-- Nothing runs after a failure. -/
theorem throw_bind_onward (e : DerError) (f : α → Read β) : Onward ((throw e : Read α) >>= f) :=
  fun _ => ⟨rfl, Nat.le_refl _, Nat.le_max_left _ _⟩

theorem readLength_onward : Onward readLength := by
  refine takeByte_onward.bind fun first => ?_
  split
  · exact throw_onward _
  split
  · exact throw_onward _
  split
  · exact pure_onward _
  refine (take_onward _).bind fun bytes => ?_
  dsimp only
  split
  · exact throw_bind_onward _ _
  split
  · exact throw_bind_onward _ _
  split
  · exact throw_bind_onward _ _
  · exact pure_onward _

theorem readAny_onward : Onward readAny := by
  refine get_onward.bind fun _ => takeByte_onward.bind fun tagOctet => ?_
  split
  · exact throw_bind_onward _ _
  refine readLength_onward.bind fun len => (take_onward len).bind fun contents => ?_
  exact get_onward.bind fun _ => pure_onward _

end

/-! ### The iterator with its positions -/

namespace Entries

variable {α : Type} {readOne : Der.Reader → Except X509Error α × Der.Reader}

/-- `listFuel`, with the position each item was read from. -/
def visitsFuel (readOne : Der.Reader → Except X509Error α × Der.Reader) :
    Nat → Entries → List (Nat × Except X509Error α)
  | 0, _ => []
  | fuel + 1, it =>
      match next readOne it with
      | none => []
      | some (item, it') => (it.reader.pos, item) :: visitsFuel readOne fuel it'

/-- Every item of the iterator, with the position it was read from. -/
def visits (readOne : Der.Reader → Except X509Error α × Der.Reader) (contents : Bytes) :
    List (Nat × Except X509Error α) :=
  visitsFuel readOne contents.length (new contents)

theorem visitsFuel_items (fuel : Nat) (it : Entries) :
    (visitsFuel readOne fuel it).map Prod.snd = listFuel readOne fuel it := by
  induction fuel generalizing it with
  | zero => rfl
  | succ fuel ih =>
      rw [visitsFuel, listFuel]
      cases next readOne it with
      | none => rfl
      | some step => rw [List.map_cons, ih]

theorem visits_items (contents : Bytes) :
    (visits readOne contents).map Prod.snd = list readOne contents := visitsFuel_items _ _

theorem visitsFuel_stopped (fuel : Nat) (r : Der.Reader) :
    visitsFuel readOne fuel ⟨r, true⟩ = [] := by
  cases fuel with
  | zero => rfl
  | succ fuel => rfl

end Entries

namespace GeneralNames

variable {c : Bytes} {p q s t : Nat} {name : GeneralName}

theorem readOne_cursor (r : Der.Reader) : (readOne r).2 = cursorAfter readAny r := by
  unfold readOne readItem cursorAfter
  cases readAny r with
  | ok value r' => rfl
  | error e r' => rfl

theorem readOne_eq_ok {r : Der.Reader} :
    (readOne r).1 = .ok name ↔
      ∃ value r', readAny r = .ok value r' ∧ GeneralName.ofValue value = .ok name := by
  unfold readOne readItem
  cases readAny r with
  | ok value r' => simp
  | error e r' => simp

/-- Skip the whole element at a position. -/
def Skips (c : Bytes) (p q : Nat) : Prop := ∃ value r', readAny ⟨c, p⟩ = .ok value r' ∧ r'.pos = q

/-- A position reached from the start of `c` by skipping whole elements: where an entry is. -/
def Reached (c : Bytes) (p : Nat) : Prop := Relation.ReflTransGen (Skips c) 0 p

/-- Read at a position and go on from wherever the cursor is, as the iterator does. -/
def ReadsOn (c : Bytes) (p q : Nat) : Prop :=
  p < c.length ∧ (cursorAfter readAny ⟨c, p⟩).pos = q

theorem Skips.lt (h : Skips c p q) : p < q ∧ p < c.length := by
  obtain ⟨value, r', hread, rfl⟩ := h
  have hon : on ⟨c, p⟩ readAny = .ok (value, r') := by simp only [on, hread]
  obtain ⟨-, hlt, hend⟩ := on_readAny_advances hon
  exact ⟨hlt, Nat.lt_of_lt_of_le hlt hend⟩

theorem Skips.readsOn (h : Skips c p q) : ReadsOn c p q := by
  refine ⟨h.lt.2, ?_⟩
  obtain ⟨value, r', hread, rfl⟩ := h
  rw [cursorAfter, hread]

theorem ReadsOn.eq (h : ReadsOn c p q) : cursorAfter readAny ⟨c, p⟩ = ⟨c, q⟩ := by
  obtain ⟨-, rfl⟩ := h
  have hin := (readAny_onward ⟨c, p⟩).1
  cases hcursor : cursorAfter readAny ⟨c, p⟩ with
  | mk input pos =>
      rw [hcursor] at hin
      exact congrArg (Der.Reader.mk · pos) hin

/-- A read that does not move is repeated forever. -/
theorem readsOn_stuck (hstuck : ReadsOn c q q) (h : Relation.ReflTransGen (ReadsOn c) q s) :
    s = q := by
  induction h with
  | refl => rfl
  | tail _ hstep ih =>
      subst ih
      exact hstep.2.symm.trans hstuck.2

/-- One call of the iterator with something left to read: it goes on from the cursor the read
left, unless that is where it was. -/
theorem visitsFuel_succ (hread : ReadsOn c p q) (fuel : Nat) :
    ∃ stopped, Entries.visitsFuel readOne (fuel + 1) ⟨⟨c, p⟩, false⟩ =
        (p, (readOne ⟨c, p⟩).1) :: Entries.visitsFuel readOne fuel ⟨⟨c, q⟩, stopped⟩ ∧
      (stopped = true → q = p) := by
  have hempty : Der.Reader.isEmpty ⟨c, p⟩ = false := by
    simpa [Der.Reader.isEmpty] using hread.1
  obtain ⟨stopped, hstopped⟩ : ∃ stopped, stopped = ((readOne ⟨c, p⟩).1.toOption.isNone &&
    Der.Reader.remaining ⟨c, q⟩ == Der.Reader.remaining ⟨c, p⟩) := ⟨_, rfl⟩
  refine ⟨stopped, ?_, fun hstop => ?_⟩
  · have hnext : Entries.next readOne ⟨⟨c, p⟩, false⟩ =
        some ((readOne ⟨c, p⟩).1, ⟨⟨c, q⟩, stopped⟩) := by
      rw [hstopped, ← hread.eq, ← readOne_cursor]
      simp [Entries.next, hempty]
    rw [Entries.visitsFuel, hnext]
  · have hsame : Der.Reader.remaining ⟨c, q⟩ = Der.Reader.remaining ⟨c, p⟩ := by
      rw [hstop] at hstopped
      simpa using (Bool.and_eq_true_iff.mp hstopped.symm).2
    have hend := (readAny_onward ⟨c, p⟩).2
    rw [hread.eq] at hend
    have hlt := hread.1
    simp only [Der.Reader.remaining] at hsame hend
    omega

theorem visitsFuel_sound {item : Except X509Error GeneralName} (fuel : Nat)
    (h : (s, item) ∈ Entries.visitsFuel readOne fuel ⟨⟨c, q⟩, false⟩) :
    Relation.ReflTransGen (ReadsOn c) q s ∧ s < c.length ∧ item = (readOne ⟨c, s⟩).1 := by
  induction fuel generalizing q with
  | zero => exact absurd h List.not_mem_nil
  | succ fuel ih =>
      by_cases hq : q < c.length
      · obtain ⟨t, ht⟩ : ∃ t, t = (cursorAfter readAny ⟨c, q⟩).pos := ⟨_, rfl⟩
        have hread : ReadsOn c q t := ⟨hq, ht.symm⟩
        obtain ⟨stopped, hvisits, -⟩ := visitsFuel_succ hread fuel
        rw [hvisits] at h
        rcases List.mem_cons.mp h with heq | hmem
        · obtain ⟨rfl, rfl⟩ := Prod.mk.inj heq
          exact ⟨.refl, hq, rfl⟩
        · cases stopped with
          | true =>
              rw [Entries.visitsFuel_stopped] at hmem
              exact absurd hmem List.not_mem_nil
          | false =>
              obtain ⟨hpath, hs, hitem⟩ := ih hmem
              exact ⟨.head hread hpath, hs, hitem⟩
      · have hempty : Der.Reader.isEmpty ⟨c, q⟩ = true := by
          simpa [Der.Reader.isEmpty] using hq
        rw [Entries.visitsFuel] at h
        simp [Entries.next, hempty] at h

theorem ReadsOn.le (h : ReadsOn c p q) : p ≤ q := by
  have hpos := (readAny_onward ⟨c, p⟩).2.1
  rwa [h.eq] at hpos

theorem readsOn_le (h : Relation.ReflTransGen (ReadsOn c) q s) : q ≤ s := by
  induction h with
  | refl => exact Nat.le_refl _
  | tail _ hstep ih => exact Nat.le_trans ih hstep.le

theorem visitsFuel_complete (fuel : Nat) (hfuel : c.length - q ≤ fuel) (hs : s < c.length)
    (h : Relation.ReflTransGen (ReadsOn c) q s) :
    (s, (readOne ⟨c, s⟩).1) ∈ Entries.visitsFuel readOne fuel ⟨⟨c, q⟩, false⟩ := by
  induction fuel generalizing q with
  | zero =>
      have hle := readsOn_le h
      omega
  | succ fuel ih =>
      have hq : q < c.length := Nat.lt_of_le_of_lt (readsOn_le h) hs
      obtain ⟨t, ht⟩ : ∃ t, t = (cursorAfter readAny ⟨c, q⟩).pos := ⟨_, rfl⟩
      have hread : ReadsOn c q t := ⟨hq, ht.symm⟩
      obtain ⟨stopped, hvisits, hstopped⟩ := visitsFuel_succ hread fuel
      rw [hvisits, List.mem_cons]
      by_cases hmove : t = q
      · subst hmove
        obtain rfl := readsOn_stuck hread h
        exact .inl rfl
      · rcases Relation.ReflTransGen.cases_head h with rfl | ⟨t', hread', hrest⟩
        · exact .inl rfl
        · have hsame : t' = t := hread'.2.symm.trans hread.2
          subst hsame
          have hrun : stopped = false := by
            cases stopped with
            | true => exact absurd (hstopped rfl) hmove
            | false => rfl
          have hle := hread.le
          subst hrun
          exact .inr (ih (by omega) hrest)

/-- The iterator's items are the reads at the positions it goes on to from the start. -/
theorem mem_visits_iff {item : Except X509Error GeneralName} :
    (s, item) ∈ Entries.visits readOne c ↔
      Relation.ReflTransGen (ReadsOn c) 0 s ∧ s < c.length ∧ item = (readOne ⟨c, s⟩).1 := by
  constructor
  · exact visitsFuel_sound _
  · intro h
    obtain ⟨hpath, hs, rfl⟩ := h
    exact visitsFuel_complete _ (Nat.sub_le _ _) hs hpath

/-! ### Entries and what only looks like one -/

/-- Every name the iterator reports is an entry: it was read as a whole element, from a position
reached by skipping whole elements. -/
def Genuine (c : Bytes) : Prop :=
  ∀ s name, (s, .ok name) ∈ Entries.visits readOne c →
    Reached c s ∧ ∃ value r', readAny ⟨c, s⟩ = .ok value r' ∧ GeneralName.ofValue value = .ok name

/-- No name is found by reading on from the cursor that the first malformed element of `c`
leaves behind. -/
def NamelessAfterMalformed (c : Bytes) : Prop :=
  ∀ p e r', Reached c p → p < c.length → readAny ⟨c, p⟩ = .error e r' →
    ∀ s value r'', Relation.ReflTransGen (ReadsOn c) r'.pos s →
      readAny ⟨c, s⟩ = .ok value r'' → ∀ name, GeneralName.ofValue value ≠ .ok name

theorem skips_readsOn (h : Relation.ReflTransGen (Skips c) p q) :
    Relation.ReflTransGen (ReadsOn c) p q :=
  Relation.ReflTransGen.mono (fun _ _ => Skips.readsOn) _ _ h

theorem skips_unique : Relator.RightUnique (Skips c) := by
  rintro p q q' ⟨value, r, hread, rfl⟩ ⟨value', r', hread', rfl⟩
  rw [hread] at hread'
  rw [(EStateM.Result.ok.inj hread').2]

/-- Entries stop at the first malformed element. -/
theorem Reached.le_malformed {e : DerError} {r' : Der.Reader} (h : Reached c s) (hp : Reached c p)
    (hbad : readAny ⟨c, p⟩ = .error e r') : s ≤ p := by
  rcases Relation.ReflTransGen.total_of_right_unique skips_unique hp h with hfrom | hto
  · rcases Relation.ReflTransGen.cases_head hfrom with rfl | ⟨t, ⟨value, r'', hread, -⟩, -⟩
    · exact Nat.le_refl _
    · rw [hbad] at hread
      exact absurd hread (by simp)
  · exact readsOn_le (skips_readsOn hto)

/-- Every position the iterator reads from is an entry's, or comes after the first malformed
element. -/
theorem reached_or_after (h : Relation.ReflTransGen (ReadsOn c) 0 s) :
    Reached c s ∨ ∃ p e r', Reached c p ∧ p < c.length ∧ readAny ⟨c, p⟩ = .error e r' ∧
      Relation.ReflTransGen (ReadsOn c) r'.pos s := by
  induction h with
  | refl => exact .inl .refl
  | tail _ hstep ih =>
      rcases ih with hreached | ⟨p, e, r', hp, hlt, hbad, hrest⟩
      · obtain ⟨hlt, hcursor⟩ := hstep
        rename_i b d _
        cases hread : readAny ⟨c, b⟩ with
        | ok value r' =>
            rw [cursorAfter, hread] at hcursor
            exact .inl (.tail hreached ⟨value, r', hread, hcursor⟩)
        | error e r' =>
            rw [cursorAfter, hread] at hcursor
            exact .inr ⟨b, e, r', hreached, hlt, hread, hcursor ▸ .refl⟩
      · exact .inr ⟨p, e, r', hp, hlt, hbad, .tail hrest hstep⟩

/-- The names of a `subjectAltName` are its entries exactly when nothing that reads as a name
stands where reading goes on after its first malformed element. -/
theorem subjectAltNames_genuine_iff (exts : Extensions) :
    (Entries.visits readOne (exts.subjectAltName.getD [])).map Prod.snd = exts.subjectAltNames ∧
    (Genuine (exts.subjectAltName.getD []) ↔
      NamelessAfterMalformed (exts.subjectAltName.getD [])) := by
  refine ⟨Entries.visits_items _, ?_⟩
  obtain ⟨c, hc⟩ : ∃ c, c = exts.subjectAltName.getD [] := ⟨_, rfl⟩
  rw [← hc]
  constructor
  · intro hgenuine p e r' hp hlt hbad s value r'' hpath hread name hname
    have hcursor : ReadsOn c p r'.pos := ⟨hlt, by rw [cursorAfter, hbad]⟩
    have hvisited : (s, .ok name) ∈ Entries.visits readOne c := by
      refine mem_visits_iff.mpr ⟨((skips_readsOn hp).tail hcursor).trans hpath, ?_, ?_⟩
      · exact Skips.lt ⟨value, r'', hread, rfl⟩ |>.2
      · exact (readOne_eq_ok.mpr ⟨value, r'', hread, hname⟩).symm
    -- an entry there would have to be the malformed element itself
    have hle := (hgenuine s name hvisited).1.le_malformed hp hbad
    have hsame : s = p := Nat.le_antisymm hle (Nat.le_trans hcursor.le (readsOn_le hpath))
    rw [hsame, hbad] at hread
    exact absurd hread (by simp)
  · intro hnameless s name hvisited
    obtain ⟨hpath, -, hitem⟩ := mem_visits_iff.mp hvisited
    obtain ⟨value, r'', hread, hname⟩ := readOne_eq_ok.mp hitem.symm
    rcases reached_or_after hpath with hreached | ⟨p, e, r', hp, hlt, hbad, hrest⟩
    · exact ⟨hreached, value, r'', hread, hname⟩
    · exact absurd hname (hnameless p e r' hp hlt hbad s value r'' hrest hread name)

/-- An element with a long-form tag is malformed, and the iterator goes on from the octet after
the tag: the dNSName `a.b` it then reports is inside that element. -/
theorem subjectAltNames_inside_element :
    .ok (.dnsName [0x61, 0x2e, 0x62]) ∈ Extensions.subjectAltNames
        { subjectAltName := some [0x1f, 0x82, 0x03, 0x61, 0x2e, 0x62] } ∧
      ¬ Genuine [0x1f, 0x82, 0x03, 0x61, 0x2e, 0x62] := by
  have hvisited : (1, .ok (.dnsName [0x61, 0x2e, 0x62])) ∈
      Entries.visits readOne [0x1f, 0x82, 0x03, 0x61, 0x2e, 0x62] := by decide
  refine ⟨by decide, fun hgenuine => ?_⟩
  have hbad : readAny ⟨[0x1f, 0x82, 0x03, 0x61, 0x2e, 0x62], 0⟩ =
      .error .highTagNumberForm ⟨[0x1f, 0x82, 0x03, 0x61, 0x2e, 0x62], 1⟩ := rfl
  have hle := (hgenuine 1 _ hvisited).1.le_malformed .refl hbad
  exact absurd hle (by decide)

end GeneralNames

end RustyTls
