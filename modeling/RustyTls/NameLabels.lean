import Mathlib.Data.List.TakeWhile
import RustyTls.NameSound

/-!
# RustyTls.NameLabels

Names as lists of labels.

The comparisons of `handrolled/name.rs` are made on octets: a prefix is stripped, a name is cut
at its first dot, a tail is compared behind a boundary octet. What they are meant to decide is a
question about labels. `labels` splits a name at its dots and lowers the case, and splitting
loses nothing (`labels_inj`), so a comparison of octets is one of labels: equality of names is
equality of labels, and a tail behind a dot is a suffix of them (`labels_suffix_iff`).

Nothing here is about names that are well formed, except where a matching rule asks for one: the
correspondence holds for empty labels, for dots at either end and for any octets.
-/

namespace RustyTls

open Core Der

/-! ### Labels -/

/-- The labels of a name, in the case in which they are compared. -/
def labels (name : Bytes) : List Bytes := (name.splitOn dot).map lower

theorem labels_eq (name : Bytes) : labels name = (lower name).splitOn dot :=
  (lower_splitOn name).symm

theorem labels_ne_nil (name : Bytes) : labels name ≠ [] := by
  rw [labels_eq]
  exact List.splitOn_ne_nil _ _

/-- A name is its labels: nothing but its case is lost. -/
theorem labels_inj {left right : Bytes} : labels left = labels right ↔ lower left = lower right := by
  rw [labels_eq, labels_eq]
  constructor
  · intro h
    have hjoin := congrArg (List.intercalate [dot]) h
    rwa [List.intercalate_splitOn, List.intercalate_splitOn] at hjoin
  · intro h
    rw [h]

/-- A dot ends a label wherever it stands. -/
theorem labels_append_dot (front back : Bytes) :
    labels (front ++ dot :: back) = labels front ++ labels back := by
  simp only [labels, List.splitOn_append_cons_self, List.map_append]

theorem labels_of_not_mem {name : Bytes} (h : dot ∉ name) : labels name = [lower name] := by
  rw [labels, List.splitOn_eq_singleton h]
  rfl

/-- A name with a dot in it has at least two labels. -/
theorem two_le_labels_length {name : Bytes} : 2 ≤ (labels name).length ↔ dot ∈ name := by
  constructor
  · intro h
    by_contra hdot
    rw [labels_of_not_mem hdot] at h
    simp at h
  · intro h
    obtain ⟨front, back, rfl⟩ := List.append_of_mem h
    rw [labels_append_dot, List.length_append]
    have hfront := List.length_pos_of_ne_nil (labels_ne_nil front)
    have hback := List.length_pos_of_ne_nil (labels_ne_nil back)
    omega

/-- Joining two lists of labels puts a dot between them. -/
theorem intercalate_append (sep : UInt8) {front back : List Bytes} (hfront : front ≠ [])
    (hback : back ≠ []) : [sep].intercalate (front ++ back)
      = [sep].intercalate front ++ sep :: [sep].intercalate back := by
  induction front with
  | nil => exact absurd rfl hfront
  | cons label rest ih =>
      obtain ⟨next, more, rfl⟩ := List.exists_cons_of_ne_nil hback
      cases rest with
      | nil => simp [List.intercalate_cons_cons]
      | cons other others =>
          have hrest := ih (by simp)
          simp only [List.cons_append, List.intercalate_cons_cons] at hrest ⊢
          rw [hrest]
          simp

/-- The tail of a name behind one of its dots is a suffix of its labels. -/
theorem labels_suffix_iff {base name : Bytes} : labels base <:+ labels name ↔
    lower base = lower name ∨ ∃ front, lower name = front ++ dot :: lower base := by
  constructor
  · intro h
    obtain ⟨front, hfront⟩ := h
    rw [labels_eq, labels_eq] at hfront
    have hjoin := congrArg (List.intercalate [dot]) hfront
    rw [List.intercalate_splitOn] at hjoin
    by_cases hnil : front = []
    · left
      rw [hnil, List.nil_append, List.intercalate_splitOn] at hjoin
      exact hjoin
    · right
      rw [intercalate_append dot hnil (List.splitOn_ne_nil _ _), List.intercalate_splitOn] at hjoin
      exact ⟨_, hjoin.symm⟩
  · intro h
    rcases h with h | ⟨front, h⟩
    · have hsame := labels_inj.mpr h
      exact hsame ▸ List.suffix_rfl
    · refine ⟨front.splitOn dot, ?_⟩
      rw [labels_eq, labels_eq, h, List.splitOn_append_cons_self]

/-! ### Containment -/

/-- A Rust string indexed or sliced where it has no character. -/
inductive StrPanic
  | index (position len : Nat)
  | slice (start len : Nat)
  deriving Repr, DecidableEq

/-- `name.as_bytes()[position]`. -/
def byteAt (name : Bytes) (position : Nat) : Except StrPanic UInt8 :=
  okOr name[position]? (.index position name.length)

/-- At the end of a string, or before an octet that does not continue a character. -/
def isCharBoundary (name : Bytes) (position : Nat) : Bool :=
  position == name.length || (name[position]?).any fun b => b < 0x80 || 0xc0 ≤ b

/-- `&name[start..]`. -/
def sliceFrom (name : Bytes) (start : Nat) : Except StrPanic Bytes := do
  refuse (isCharBoundary name start = false) (.slice start name.length)
  .ok (name.drop start)

/-- `dns_within` with the panics that its index and its slice could end in. -/
def dnsWithinChecked (base name : Bytes) : Except StrPanic Bool :=
  if base.isEmpty then
    .ok true
  else if eqIgnoreCase base name then
    .ok true
  else if name.length < base.length then
    .ok false
  else
    let offset := name.length - base.length
    if 0 < offset then do
      let boundary ← byteAt name (offset - 1)
      if boundary = dot then
        let rest ← sliceFrom name offset
        .ok (eqIgnoreCase rest base)
      else
        .ok false
    else
      .ok false

theorem sliceFrom_ascii {name : Bytes} (hascii : isAscii name = true) {start : Nat}
    (hstart : start ≤ name.length) : sliceFrom name start = .ok (name.drop start) := by
  have hboundary : isCharBoundary name start = true := by
    unfold isCharBoundary
    by_cases hend : start = name.length
    · simp [hend]
    · have hlt : start < name.length := by omega
      have hbyte : name[start] < 0x80 := by
        simpa using List.all_eq_true.mp hascii _ (List.getElem_mem hlt)
      simp [hlt, hbyte]
  rw [sliceFrom, refuse_neg _ (by simp [hboundary]), ok_bind]

/-- Neither the index nor the slice is ever out of range. -/
theorem dnsWithinChecked_eq {base name : Bytes} (hascii : isAscii name = true) :
    dnsWithinChecked base name = .ok (dnsWithin base name) := by
  unfold dnsWithinChecked dnsWithin
  by_cases hempty : base.isEmpty = true
  · rw [if_pos hempty, if_pos hempty]
  by_cases hsame : eqIgnoreCase base name = true
  · rw [if_neg hempty, if_neg hempty, if_pos hsame, if_pos hsame]
  rw [if_neg hempty, if_neg hempty, if_neg hsame, if_neg hsame]
  by_cases hlt : base.length < name.length
  · -- The boundary octet is before the tail, and the tail is not empty before it.
    have hindex : name.length - base.length - 1 < name.length := by omega
    have hstart : name.length - base.length ≤ name.length := by omega
    rw [if_pos hlt, if_neg (by omega)]
    simp only [Nat.sub_pos_of_lt hlt, if_true, byteAt, List.getElem?_eq_getElem hindex, okOr_some,
      ok_bind]
    by_cases hdot : name[name.length - base.length - 1] = dot
    · simp [hdot, sliceFrom_ascii hascii hstart]
    · simp [hdot]
  · rw [if_neg hlt]
    by_cases hshort : name.length < base.length
    · rw [if_pos hshort]
    · rw [if_neg hshort]
      simp only
      rw [if_neg (by omega)]

theorem dnsWithin_iff_labels {base name : Bytes} :
    dnsWithin base name = true ↔ base = [] ∨ labels base <:+ labels name := by
  rw [dnsWithin_iff, labels_suffix_iff]
  rfl

/-- A subtree of DNS names is a suffix of labels. On any two strings of ASCII the test reads
nothing out of range and holds exactly when the base is empty or its labels are the last labels
of the name, and it is transitive. -/
theorem dnsWithin_labels :
    (∀ base name, isAscii base = true → isAscii name = true →
      dnsWithinChecked base name = .ok (dnsWithin base name) ∧
      (dnsWithin base name = true ↔ base = [] ∨ labels base <:+ labels name)) ∧
    ∀ a b c, isAscii a = true → isAscii b = true → isAscii c = true → b ≠ [] →
      dnsWithin a b = true → dnsWithin b c = true → dnsWithin a c = true := by
  constructor
  · intro base name _ hascii
    exact ⟨dnsWithinChecked_eq hascii, dnsWithin_iff_labels⟩
  · intro a b c _ _ _ hb hab hbc
    rw [dnsWithin_iff_labels] at hab hbc ⊢
    rcases hab with ha | hab
    · exact .inl ha
    · rcases hbc with hnil | hbc
      · exact absurd hnil hb
      · exact .inr (hab.trans hbc)

/-- `a..b` is within `.b` and `b`, and `xb` is not within `b`. -/
theorem dnsWithin_labels_dots :
    dnsWithinChecked [dot, 0x62] [0x61, dot, dot, 0x62] = .ok true ∧
      dnsWithin [0x62] [0x61, dot, dot, 0x62] = true ∧
      dnsWithinChecked [0x62] [0x78, 0x62] = .ok false := by
  obtain ⟨hwithin, htrans⟩ := dnsWithin_labels
  refine ⟨?_, ?_, ?_⟩
  · rw [(hwithin [dot, 0x62] [0x61, dot, dot, 0x62] (by decide) (by decide)).1]
    decide
  · exact htrans [0x62] [dot, 0x62] [0x61, dot, dot, 0x62] (by decide) (by decide) (by decide)
      (by decide) (by decide) (by decide)
  · rw [(hwithin [0x62] [0x78, 0x62] (by decide) (by decide)).1]
    decide

/-! ### Matching -/

/-- What validity says of the labels. -/
theorem label_of_valid {name label : Bytes} (hvalid : isValidDnsName name = true)
    (hlabel : label ∈ name.splitOn dot) :
    label ≠ [] ∧ label.length ≤ maxLabelLen ∧ label.all isLabelByte = true := by
  simp only [isValidDnsName, Bool.and_eq_true, List.all_eq_true] at hvalid
  simpa [List.all_eq_true, and_assoc] using hvalid.2 label hlabel

/-- A wildcard pattern is not itself a name. -/
theorem not_valid_wildcard (suffix : Bytes) : isValidDnsName (star :: dot :: suffix) = false := by
  rw [← Bool.not_eq_true]
  intro hvalid
  have hstar : [star] ∈ (star :: dot :: suffix).splitOn dot := by
    rw [show star :: dot :: suffix = [star] ++ dot :: suffix from rfl,
      List.splitOn_append_cons_self]
    exact List.mem_append_left _ (by decide)
  exact absurd (label_of_valid hvalid hstar).2.2 (by decide)

theorem dot_not_mem_of_splitOnce {name : Bytes} (h : splitOnce name = none) : dot ∉ name := by
  unfold splitOnce at h
  split at h
  · next hdrop =>
      intro hmem
      have hall : ∀ b ∈ name, b ≠ dot := by simpa using List.dropWhile_eq_nil_iff.mp hdrop
      exact hall dot hmem rfl
  · cases h

/-- Cutting a valid name at its first dot takes off its first label. -/
theorem labels_of_splitOnce {name first rest : Bytes} (hvalid : isValidDnsName name = true)
    (h : splitOnce name = some (first, rest)) :
    first ≠ [] ∧ labels name = lower first :: labels rest := by
  obtain ⟨rfl, hfirst⟩ := splitOnce_eq_some h
  refine ⟨?_, ?_⟩
  · have hlabel : first ∈ (first ++ dot :: rest).splitOn dot := by
      rw [List.splitOn_append_cons_self, List.splitOn_eq_singleton hfirst]
      simp
    exact (label_of_valid hvalid hlabel).1
  · rw [labels_append_dot, labels_of_not_mem hfirst]
    rfl

theorem dnsNameMatches_iff_labels {presented reference : Bytes}
    (hreference : isValidDnsName reference = true) :
    dnsNameMatches presented reference = true ↔
      (isValidDnsName presented = true ∧ labels presented = labels reference) ∨
      ∃ suffix, presented = star :: dot :: suffix ∧ isValidDnsName suffix = true ∧
        2 ≤ (labels suffix).length ∧ ∃ first, labels reference = first :: labels suffix := by
  unfold dnsNameMatches
  cases hstrip : stripWildcard presented with
  | none =>
      simp only [Bool.and_eq_true, eqIgnoreCase_iff, labels_inj]
      constructor
      · exact .inl
      · intro h
        rcases h with h | ⟨suffix, h, -⟩
        · exact h
        · rw [h, stripWildcard, if_pos ⟨rfl, rfl⟩] at hstrip
          cases hstrip
  | some suffix =>
      obtain rfl := stripWildcard_eq_some hstrip
      simp only [not_valid_wildcard, Bool.false_eq_true, false_and, false_or]
      have hcovered : (∃ other, star :: dot :: suffix = star :: dot :: other ∧
          isValidDnsName other = true ∧ 2 ≤ (labels other).length ∧
          ∃ first, labels reference = first :: labels other) ↔
          isValidDnsName suffix = true ∧ dot ∈ suffix ∧
            ∃ first, labels reference = first :: labels suffix := by
        simp [two_le_labels_length]
      rw [hcovered]
      by_cases hsuffix : isValidDnsName suffix = true ∧ dot ∈ suffix
      · rw [if_neg (by simp [hsuffix])]
        cases hsplit : splitOnce reference with
        | none =>
            simp only [Bool.false_eq_true, false_iff]
            intro h
            obtain ⟨-, -, first, h⟩ := h
            rw [labels_of_not_mem (dot_not_mem_of_splitOnce hsplit)] at h
            exact labels_ne_nil suffix (List.cons.inj h).2.symm
        | some parts =>
            obtain ⟨first, rest⟩ := parts
            obtain ⟨hne, hlabels⟩ := labels_of_splitOnce hreference hsplit
            have hfirst : (!first.isEmpty) = true := by simpa using hne
            simp only [hfirst, Bool.true_and, eqIgnoreCase_iff, ← labels_inj, hlabels]
            constructor
            · intro h
              exact ⟨hsuffix.1, hsuffix.2, lower first, by rw [h]⟩
            · intro h
              obtain ⟨-, -, label, h⟩ := h
              exact (List.cons.inj h).2
      · have hrefused : (!isValidDnsName suffix || !suffix.contains dot) = true := by
          rcases not_and_or.mp hsuffix with h | h
          · simp [h]
          · simp [h]
        rw [if_pos hrefused]
        simp only [Bool.false_eq_true, false_iff]
        intro h
        obtain ⟨hvalid, hdot, -⟩ := h
        exact hsuffix ⟨hvalid, hdot⟩

/-- Name matching is label matching, and only a name of the same kind authenticates. -/
theorem verifyServerName_labels :
    (∀ presented reference, isValidDnsName reference = true →
      (dnsNameMatches presented reference = true ↔
        (isValidDnsName presented = true ∧ labels presented = labels reference) ∨
        ∃ suffix, presented = star :: dot :: suffix ∧ isValidDnsName suffix = true ∧
          2 ≤ (labels suffix).length ∧ ∃ first, labels reference = first :: labels suffix)) ∧
    (∀ (certificate : Certificate) (reference : Bytes),
      verifyServerName certificate (.dns reference) = .ok () ↔
        isValidDnsName reference = true ∧
        ∃ presented, .ok (.dnsName presented) ∈ certificate.extensions.subjectAltNames ∧
          dnsNameMatches presented reference = true) ∧
    (∀ (certificate : Certificate) (address : IpAddr),
      verifyServerName certificate (.ip address) = .ok () ↔
        .ok (.ipAddress address.octets) ∈ certificate.extensions.subjectAltNames) ∧
    (∀ address presented, entryMatches (.ip address) (.ok (.dnsName presented)) = false) ∧
    ∀ reference octets, entryMatches (.dns reference) (.ok (.ipAddress octets)) = false := by
  refine ⟨fun presented reference h => dnsNameMatches_iff_labels h, ?_, ?_, ?_, ?_⟩
  · intro certificate reference
    simp only [verifyServerName, checkReference, bind_eq_ok, refuse_eq_ok, Bool.not_eq_false,
      List.any_eq_true, exists_and_left, exists_const]
    constructor
    · intro h
      obtain ⟨hvalid, entry, hmem, hmatch⟩ := h
      refine ⟨hvalid, ?_⟩
      cases entry with
      | error err => cases hmatch
      | ok general =>
          cases general with
          | dnsName presented => exact ⟨presented, hmem, hmatch⟩
          | rfc822Name | uri | ipAddress | other => cases hmatch
    · intro h
      obtain ⟨hvalid, presented, hmem, hmatch⟩ := h
      exact ⟨hvalid, _, hmem, hmatch⟩
  · intro certificate address
    simp only [verifyServerName, checkReference, ok_bind, refuse_eq_ok, Bool.not_eq_false,
      List.any_eq_true]
    constructor
    · intro h
      obtain ⟨entry, hmem, hmatch⟩ := h
      cases entry with
      | error err => cases hmatch
      | ok general =>
          cases general with
          | ipAddress presented =>
              obtain rfl : presented = address.octets := by simpa [entryMatches] using hmatch
              exact hmem
          | rfc822Name | uri | dnsName | other => cases hmatch
    · intro hmem
      exact ⟨_, hmem, by simp [entryMatches]⟩
  · intro address presented
    rfl
  · intro reference octets
    rfl

/-- `*.b.c` matches `A.B.C`, as label matching says. -/
theorem verifyServerName_labels_wildcard :
    dnsNameMatches [star, dot, 0x62, dot, 0x63] [0x41, dot, 0x42, dot, 0x43] = true := by
  refine (verifyServerName_labels.1 _ _ (by decide)).mpr (.inr ⟨[0x62, dot, 0x63], rfl, ?_, ?_, ?_⟩)
  · decide
  · decide
  · exact ⟨[0x61], by decide⟩

end RustyTls
