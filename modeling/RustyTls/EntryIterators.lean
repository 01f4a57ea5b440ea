import RustyTls.Core.Iterator
import RustyTls.SubjectAltNames

/-!
# RustyTls.EntryIterators

The `subjectAltName` and `extendedKeyUsage` iterators end on every input.

Which error a read fails with is the peer's choice, and some of them leave the cursor where it
was: a wrong tag is put back so that `OPTIONAL` fields work. What an iterator has left is
therefore not only the octets ahead of its cursor but also whether it has stopped. Every item
makes that smaller (`Entries.next_left`): a read that succeeds takes an octet, one that fails
gives none back, and one that fails on the spot stops the iterator.
-/

namespace RustyTls

open Core Der

/-! ### A wrong tag is put back -/

section
variable {tag : Tag} {r r' : Der.Reader} {value : Value}

/-- A well-formed element under another tag is an error that leaves the cursor before it. -/
theorem read_wrongTag (hread : readAny r = .ok value r') (htag : value.tag ≠ tag) :
    Der.read tag r = .error (.unexpectedTag tag value.tag.octet) r := by
  show EStateM.bind readAny _ r = _
  rw [EStateM.bind, hread]
  show (if value.tag ≠ tag then _ else _ : Read Value) r' = _
  rw [if_pos htag]
  rfl

theorem read_of_error {e : DerError} (hread : readAny r = .error e r') :
    Der.read tag r = .error e r' := by
  show EStateM.bind readAny _ r = _
  rw [EStateM.bind, hread]

theorem read_onward (tag : Tag) : Onward (Der.read tag) := by
  intro r
  have hany := readAny_onward r
  cases hread : readAny r with
  | error e r' =>
      rw [cursorAfter, hread] at hany
      rwa [cursorAfter, read_of_error hread]
  | ok value r' =>
      rw [cursorAfter, hread] at hany
      by_cases htag : value.tag = tag
      · rwa [cursorAfter, read_iff.mpr ⟨hread, htag⟩]
      · rw [cursorAfter, read_wrongTag hread htag]
        exact ⟨rfl, Nat.le_refl _, Nat.le_max_left _ _⟩

theorem readOid_onward : Onward readOid := by
  refine (read_onward .oid).bind fun value => ?_
  dsimp only
  split
  · exact throw_bind_onward _ _
  split
  · exact throw_bind_onward _ _
  · exact pure_onward _

theorem read_advances (tag : Tag) : Advances 1 (Der.read tag) :=
  fun r value r' h => readAny_advances r value r' (read_iff.mp h).1

theorem readOid_advances : Advances 1 readOid := by
  refine (read_advances .oid).bind (k := 0) fun value => ?_
  dsimp only
  split
  · exact throw_bind_advances _ _ _
  split
  · exact throw_bind_advances _ _ _
  · exact pure_advances _

theorem readOid_wrongTag (hread : readAny r = .ok value r') (htag : value.tag ≠ .oid) :
    readOid r = .error (.unexpectedTag .oid value.tag.octet) r := by
  show EStateM.bind (Der.read .oid) _ r = _
  rw [EStateM.bind, read_wrongTag hread htag]

end

/-! ### What an iterator has left -/

namespace Entries

variable {α : Type} {readOne : Der.Reader → Except X509Error α × Der.Reader}

/-- What call number `n` of `next` returns, on the iterator over `contents`. -/
def nth (readOne : Der.Reader → Except X509Error α × Der.Reader) (contents : Bytes) (n : Nat) :
    Option (Except X509Error α) :=
  nextItem (next readOne) (new contents) n

/-- The iterator over `contents` after `n` calls of `next`. -/
def afterCalls (readOne : Der.Reader → Except X509Error α × Der.Reader) (contents : Bytes)
    (n : Nat) : Entries :=
  (afterNext (next readOne))^[n] (new contents)

/-- The octets an iterator may still read from. -/
def left (it : Entries) : Nat := if it.stopped then 0 else it.reader.remaining

/-- What an iterator asks of its reads: a failed one gives no octet back, and a successful one
takes at least one. -/
structure Taking (readOne : Der.Reader → Except X509Error α × Der.Reader) : Prop where
  keeps : ∀ r, (readOne r).2.remaining ≤ r.remaining
  takes : ∀ r a, (readOne r).1 = .ok a → (readOne r).2.remaining < r.remaining

/-- `next` in one piece, when there is something to read. -/
theorem next_open {it : Entries} (hrun : it.stopped = false) (hleft : it.reader.isEmpty = false) :
    next readOne it = some ((readOne it.reader).1, ⟨(readOne it.reader).2,
      (readOne it.reader).1.toOption.isNone &&
        (readOne it.reader).2.remaining == it.reader.remaining⟩) := by
  simp [next, hrun, hleft]

theorem next_eq_none {it : Entries} (h : it.stopped = true ∨ it.reader.isEmpty = true) :
    next readOne it = none := by
  rw [next, if_pos (by simpa using h)]

/-- Every item leaves less to read from. -/
theorem next_left (htaking : Taking readOne) (it : Entries) (item : Except X509Error α)
    (it' : Entries) (h : next readOne it = some (item, it')) : it'.left < it.left := by
  by_cases hend : it.stopped = true ∨ it.reader.isEmpty = true
  · rw [next_eq_none hend] at h
    exact absurd h (by simp)
  · simp only [not_or, Bool.not_eq_true] at hend
    obtain ⟨hrun, hopen⟩ := hend
    rw [next_open hrun hopen] at h
    obtain ⟨rfl, rfl⟩ := Prod.mk.inj (Option.some.inj h)
    have hsome : 0 < it.reader.remaining := by
      simpa [Der.Reader.isEmpty, Der.Reader.remaining] using hopen
    have hkeeps := htaking.keeps it.reader
    have htakes := htaking.takes it.reader
    unfold left
    rw [hrun, if_neg Bool.false_ne_true]
    -- a failure on the spot stops the iterator; anything else took an octet
    cases hitem : (readOne it.reader).1 with
    | ok a => simpa [Except.toOption] using htakes a hitem
    | error e =>
        by_cases hstuck : (readOne it.reader).2.remaining = it.reader.remaining
        · simpa [Except.toOption, hstuck] using hsome
        · simp only [Except.toOption, Option.isNone_none, Bool.true_and, beq_iff_eq, hstuck,
            if_false]
          omega

/-- The calls yield at most as many items as there are octets, and after that nothing. -/
theorem nth_ends (htaking : Taking readOne) (contents : Bytes) :
    ∃ k ≤ contents.length, ∀ n, nth readOne contents n = none ↔ k ≤ n :=
  nextItem_ends (next_left htaking) (new contents)

/-- The fuel of `listFuel` is enough once it covers what is left. -/
theorem listFuel_getElem? (htaking : Taking readOne) (fuel : Nat) (it : Entries)
    (hfuel : it.left ≤ fuel) (n : Nat) :
    (listFuel readOne fuel it)[n]? = nextItem (next readOne) it n := by
  induction fuel generalizing it n with
  | zero =>
      have hnone : next readOne it = none := by
        cases hnext : next readOne it with
        | none => rfl
        | some step =>
            have hlt := next_left htaking it step.1 step.2 hnext
            omega
      rw [nextItem_of_none hnone]
      rfl
  | succ fuel ih =>
      rw [listFuel]
      cases hnext : next readOne it with
      | none => rw [nextItem_of_none hnext, List.getElem?_nil]
      | some step =>
          obtain ⟨item, it'⟩ := step
          have hlt := next_left htaking it item it' hnext
          cases n with
          | zero => rw [nextItem_of_some hnext, List.getElem?_cons_zero]
          | succ n =>
              rw [nextItem_succ hnext, List.getElem?_cons_succ]
              exact ih it' (by omega) n

/-- The list of an iterator's items holds every one of them. -/
theorem list_getElem? (htaking : Taking readOne) (contents : Bytes) (n : Nat) :
    (list readOne contents)[n]? = nth readOne contents n := by
  have hleft : (new contents).left = contents.length := rfl
  exact listFuel_getElem? htaking contents.length (new contents) (Nat.le_of_eq hleft) n

end Entries

/-! ### The two iterators -/

/-- A read that never moves back and takes an octet when it succeeds. -/
theorem readItem_taking {α : Type} {read : Read α} (honward : Onward read)
    (hadvances : Advances 1 read) : Entries.Taking (readItem read) := by
  constructor
  · intro r
    have hmove := honward r
    unfold cursorAfter at hmove
    unfold readItem Der.Reader.remaining
    cases hread : read r with
    | ok a r' =>
        rw [hread] at hmove
        simp only at hmove ⊢
        rw [hmove.1]
        omega
    | error e r' =>
        rw [hread] at hmove
        simp only at hmove ⊢
        rw [hmove.1]
        omega
  · intro r a h
    unfold readItem at h ⊢
    unfold Der.Reader.remaining
    cases hread : read r with
    | error e r' =>
        rw [hread] at h
        exact absurd h (by simp)
    | ok b r' =>
        obtain ⟨hin, hpos, hend⟩ := hadvances r b r' hread
        simp only
        rw [hin]
        omega

theorem GeneralNames.readOne_taking : Entries.Taking GeneralNames.readOne := by
  have htaking := readItem_taking readAny_onward readAny_advances
  have hcursor : ∀ r, (readOne r).2 = (readItem readAny r).2 := by
    intro r
    rw [readOne_cursor, cursorAfter, readItem]
    cases readAny r with
    | ok value r' => rfl
    | error e r' => rfl
  constructor
  · intro r
    rw [hcursor]
    exact htaking.keeps r
  · intro r name h
    obtain ⟨value, r', hread, -⟩ := readOne_eq_ok.mp h
    rw [hcursor]
    exact htaking.takes r value (by rw [readItem, hread])

theorem ExtendedKeyUsage.readOne_taking : Entries.Taking ExtendedKeyUsage.readOne :=
  readItem_taking readOid_onward readOid_advances

/-- The lists the certificate checks go through hold every item of their iterators. -/
theorem Extensions.entries_getElem? (exts : Extensions) (n : Nat) :
    exts.subjectAltNames[n]? =
      Entries.nth GeneralNames.readOne (exts.subjectAltName.getD []) n ∧
    exts.extendedKeyUsage[n]? =
      Entries.nth ExtendedKeyUsage.readOne (exts.extendedKeyUsageBody.getD []) n :=
  ⟨Entries.list_getElem? GeneralNames.readOne_taking _ n,
    Entries.list_getElem? ExtendedKeyUsage.readOne_taking _ n⟩

/-- An element under another tag, where an `OBJECT IDENTIFIER` is due, is reported and stops the
iterator. -/
theorem ExtendedKeyUsage.next_wrongTag {it : Entries} {value : Value} {r' : Der.Reader}
    (hrun : it.stopped = false) (hread : readAny it.reader = .ok value r')
    (htag : value.tag ≠ .oid) :
    Entries.next readOne it =
      some (.error (.der (.unexpectedTag .oid value.tag.octet)), ⟨it.reader, true⟩) := by
  have hopen : it.reader.isEmpty = false := by
    obtain ⟨-, hpos, hend⟩ := readAny_advances _ _ _ hread
    simp only [Der.Reader.isEmpty, decide_eq_false_iff_not]
    omega
  have hitem : readOne it.reader =
      (.error (.der (.unexpectedTag .oid value.tag.octet)), it.reader) := by
    rw [readOne, readItem, readOid_wrongTag hread htag]
  rw [Entries.next_open hrun hopen, hitem]
  simp [Except.toOption]

/-- Both iterators end on every input: their calls yield at most as many items as there are
octets, and nothing after that. Where the `extendedKeyUsage` iterator is at a well-formed
element whose tag is not `OBJECT IDENTIFIER`, it yields that one error and then nothing. -/
theorem entry_iterators_end (c : Bytes) :
    (∃ k ≤ c.length, ∀ n, Entries.nth GeneralNames.readOne c n = none ↔ k ≤ n) ∧
    (∃ k ≤ c.length, ∀ n, Entries.nth ExtendedKeyUsage.readOne c n = none ↔ k ≤ n) ∧
    ∀ n value r', (Entries.afterCalls ExtendedKeyUsage.readOne c n).stopped = false →
      readAny (Entries.afterCalls ExtendedKeyUsage.readOne c n).reader = .ok value r' →
      value.tag ≠ .oid →
      Entries.nth ExtendedKeyUsage.readOne c n =
        some (.error (.der (.unexpectedTag .oid value.tag.octet))) ∧
      ∀ m, n < m → Entries.nth ExtendedKeyUsage.readOne c m = none := by
  refine ⟨Entries.nth_ends GeneralNames.readOne_taking c,
    Entries.nth_ends ExtendedKeyUsage.readOne_taking c, fun n value r' hrun hread htag => ?_⟩
  have hnext := ExtendedKeyUsage.next_wrongTag hrun hread htag
  have hcalls : ∀ m, Entries.nth ExtendedKeyUsage.readOne c (n + m) =
      nextItem (Entries.next ExtendedKeyUsage.readOne)
        (Entries.afterCalls ExtendedKeyUsage.readOne c n) m :=
    nextItem_add (Entries.new c) n
  refine ⟨(hcalls 0).trans (nextItem_of_some hnext), fun m hm => ?_⟩
  obtain ⟨k, rfl⟩ := Nat.exists_eq_add_of_lt hm
  rw [Nat.add_assoc, hcalls, nextItem_succ hnext]
  exact nextItem_of_none (Entries.next_eq_none (.inl rfl)) k

/-- An `INTEGER` before an `OBJECT IDENTIFIER`: the error is yielded, the purpose is not. -/
theorem entry_iterators_end_integer :
    Entries.nth ExtendedKeyUsage.readOne [0x02, 0x01, 0x01, 0x06, 0x03, 0x55, 0x1d, 0x25] 0 =
        some (.error (.der (.unexpectedTag .oid 0x02))) ∧
      ∀ m, 0 < m → Entries.nth ExtendedKeyUsage.readOne
        [0x02, 0x01, 0x01, 0x06, 0x03, 0x55, 0x1d, 0x25] m = none :=
  (entry_iterators_end [0x02, 0x01, 0x01, 0x06, 0x03, 0x55, 0x1d, 0x25]).2.2 0
    ⟨⟨0x02⟩, [0x01], [0x02, 0x01, 0x01]⟩
    ⟨[0x02, 0x01, 0x01, 0x06, 0x03, 0x55, 0x1d, 0x25], 3⟩ rfl rfl (by decide)

end RustyTls
