import RustyTls.PathSound

/-!
# RustyTls.NameSound

Whether name constraints bind the name a caller asked for.

Matching and constraining are two passes over the same `subjectAltName` list. Constraining
compares the names the certificate lists, wildcards included as they stand, so what it
establishes of the reference name depends on how the two were matched. A name listed
literally inherits everything (`respects_listed`). A name covered by a wildcard inherits
every subtree above its first label, and neither a subtree at the name itself nor one at the
wildcard pattern (`inside_wildcard`); those two cases are what `WildcardSafe` rules out.

`DnsInside` is RFC 5280's containment, stated on lowercased names and with no index
arithmetic; `dnsWithin_iff` says that the source computes it.
-/

namespace RustyTls

open Core Der

/-! ### Containment of DNS names -/

/-- A name in the case in which names are compared. -/
def lower (name : Bytes) : Bytes := name.map toAsciiLowercase

/-- `name` is in the subtree at `base`: the base is empty, or is the name itself, or is the
name with labels taken off the left, ignoring case. -/
def DnsInside (base name : Bytes) : Prop :=
  base = [] ∨ lower base = lower name ∨ ∃ labels, lower name = labels ++ dot :: lower base

theorem toAsciiLowercase_dot : toAsciiLowercase dot = dot := by decide

theorem toAsciiLowercase_eq_dot {b : UInt8} : toAsciiLowercase b = dot ↔ b = dot := by
  unfold toAsciiLowercase
  split
  · next hupper =>
      obtain ⟨hlo, hhi⟩ := hupper
      have hlo' : 65 ≤ b.toNat := UInt8.le_iff_toNat_le.mp hlo
      have hhi' : b.toNat ≤ 90 := UInt8.le_iff_toNat_le.mp hhi
      constructor
      · intro h
        have hnat : (b + 0x20).toNat = 46 := by rw [h]; rfl
        rw [UInt8.toNat_add] at hnat
        have : (0x20 : UInt8).toNat = 32 := rfl
        omega
      · intro h
        subst h
        exact absurd hlo' (by decide)
  · exact Iff.rfl

theorem eqIgnoreCase_iff {left right : Bytes} :
    eqIgnoreCase left right = true ↔ lower left = lower right := by
  simp only [eqIgnoreCase, Bool.and_eq_true, beq_iff_eq, lower]
  constructor
  · exact fun h => h.2
  · intro h
    exact ⟨by simpa using congrArg List.length h, h⟩

@[simp] theorem lower_length (name : Bytes) : (lower name).length = name.length := by
  simp [lower]

/-- The source's comparison of slices is containment. -/
theorem dnsWithin_iff {base name : Bytes} : dnsWithin base name = true ↔ DnsInside base name := by
  unfold dnsWithin DnsInside
  by_cases hempty : base = []
  · simp [hempty]
  by_cases heq : lower base = lower name
  · simp [heq, eqIgnoreCase_iff]
  have hneq : eqIgnoreCase base name = false := by
    rw [← Bool.not_eq_true, eqIgnoreCase_iff]
    exact heq
  by_cases hlen : base.length < name.length
  · -- The octet at `k`, before the last `base.length` ones, is the boundary.
    obtain ⟨k, hk⟩ : ∃ k, name.length = k + 1 + base.length := ⟨name.length - base.length - 1, by omega⟩
    have hoff : name.length - base.length = k + 1 := by omega
    have hlt : k < name.length := by omega
    have hsplit : name = name.take k ++ name[k] :: name.drop (k + 1) := by simp
    simp only [hempty, hneq, hlen, heq, hoff, List.isEmpty_iff, if_false, if_true,
      Bool.false_eq_true, Bool.and_eq_true, beq_iff_eq, eqIgnoreCase_iff, false_or,
      Nat.add_sub_cancel, List.getElem?_eq_getElem hlt, Option.some.injEq]
    constructor
    · intro h
      obtain ⟨hdot, hrest⟩ := h
      refine ⟨lower (name.take k), ?_⟩
      conv_lhs => rw [hsplit, hdot]
      rw [← hrest]
      simp [lower, toAsciiLowercase_dot]
    · intro h
      obtain ⟨labels, hlabels⟩ := h
      have hcount : (lower (name.take k)).length = labels.length := by
        have := congrArg List.length hlabels
        simp only [lower_length, List.length_append, List.length_cons] at this
        simp only [lower_length, List.length_take]
        omega
      rw [hsplit] at hlabels
      have hsame : lower (name.take k) ++
          toAsciiLowercase name[k] :: lower (name.drop (k + 1)) = labels ++ dot :: lower base := by
        simpa only [lower, List.map_append, List.map_cons] using hlabels
      obtain ⟨-, hrest⟩ := List.append_inj hsame hcount
      obtain ⟨hdot, hbase⟩ := List.cons.inj hrest
      exact ⟨toAsciiLowercase_eq_dot.mp hdot, hbase⟩
  · simp only [hempty, hneq, hlen, heq, List.isEmpty_iff, if_false, Bool.false_eq_true, false_or,
      false_iff]
    intro h
    obtain ⟨labels, hlabels⟩ := h
    have := congrArg List.length hlabels
    simp only [lower_length, List.length_append, List.length_cons] at this
    omega

/-- Containment does not see the case of the name. -/
theorem DnsInside.congr {base name other : Bytes} (hsame : lower name = lower other)
    (h : DnsInside base name) : DnsInside base other := by
  unfold DnsInside at h ⊢
  rw [hsame] at h
  exact h

/-! ### Case -/

/-- A fact about all octets, checked one by one. -/
theorem forall_octet {P : UInt8 → Prop} (h : ∀ n : Fin 256, P (UInt8.ofFin n)) (b : UInt8) : P b :=
  h b.toFin

theorem toAsciiLowercase_idem (b : UInt8) :
    toAsciiLowercase (toAsciiLowercase b) = toAsciiLowercase b :=
  forall_octet (P := fun b => toAsciiLowercase (toAsciiLowercase b) = toAsciiLowercase b)
    (by decide +kernel) b

theorem isLabelByte_toAsciiLowercase (b : UInt8) : isLabelByte (toAsciiLowercase b) = isLabelByte b :=
  forall_octet (P := fun b => isLabelByte (toAsciiLowercase b) = isLabelByte b) (by decide +kernel) b

theorem toAsciiLowercase_ascii (b : UInt8) : decide (toAsciiLowercase b < 0x80) = decide (b < 0x80) :=
  forall_octet (P := fun b => decide (toAsciiLowercase b < 0x80) = decide (b < 0x80))
    (by decide +kernel) b

@[simp] theorem lower_lower (name : Bytes) : lower (lower name) = lower name := by
  simp [lower, Function.comp_def, toAsciiLowercase_idem]

theorem lower_splitOn (name : Bytes) : (lower name).splitOn dot = (name.splitOn dot).map lower := by
  induction name with
  | nil => rfl
  | cons b name ih =>
      have hdot : (toAsciiLowercase b == dot) = (b == dot) := by
        rw [Bool.eq_iff_iff, beq_iff_eq, beq_iff_eq]
        exact toAsciiLowercase_eq_dot
      have hcons : lower (b :: name) = toAsciiLowercase b :: lower name := rfl
      simp only [List.splitOn] at ih ⊢
      rw [hcons, List.splitOnP_cons_eq_if_modifyHead, List.splitOnP_cons_eq_if_modifyHead, hdot, ih]
      split
      · rfl
      · cases List.splitOnP (fun x => x == dot) name <;> rfl

theorem lower_getLast? (name : Bytes) :
    ((lower name).getLast? == some dot) = (name.getLast? == some dot) := by
  rw [lower, List.getLast?_map]
  cases name.getLast? with
  | none => rfl
  | some b =>
      rw [Bool.eq_iff_iff]
      simpa using toAsciiLowercase_eq_dot

theorem lower_head? (name : Bytes) :
    ((lower name).head? == some dot) = (name.head? == some dot) := by
  rw [lower, List.head?_map]
  cases name.head? with
  | none => rfl
  | some b =>
      rw [Bool.eq_iff_iff]
      simpa using toAsciiLowercase_eq_dot

theorem isValidDnsName_lower (name : Bytes) : isValidDnsName (lower name) = isValidDnsName name := by
  have hlabel : ∀ label : Bytes, (!(lower label).isEmpty && decide ((lower label).length ≤ maxLabelLen) &&
      (lower label).all isLabelByte)
        = (!label.isEmpty && decide (label.length ≤ maxLabelLen) && label.all isLabelByte) := by
    intro label
    simp [lower, Function.comp_def, isLabelByte_toAsciiLowercase]
  have hascii : isAscii (lower name) = isAscii name := by
    simp [isAscii, lower, List.all_map, Function.comp_def, toAsciiLowercase_ascii]
  have hempty : (lower name).isEmpty = name.isEmpty := by simp [lower]
  unfold isValidDnsName
  rw [lower_getLast?, lower_head?, lower_splitOn, hascii, lower_length, hempty, List.all_map]
  congr 2
  funext label
  exact hlabel label

theorem lower_splitOnce (name : Bytes) :
    splitOnce (lower name) = (splitOnce name).map fun p => (lower p.1, lower p.2) := by
  have hdot : (fun b => decide (b ≠ dot)) ∘ toAsciiLowercase = fun b => decide (b ≠ dot) := by
    funext b
    simp [toAsciiLowercase_eq_dot]
  simp only [splitOnce, lower, List.dropWhile_map, List.takeWhile_map, hdot]
  cases name.dropWhile (fun b => decide (b ≠ dot)) <;> rfl

/-- Matching does not see the case of the reference name. -/
theorem dnsNameMatches_lower (presented reference : Bytes) :
    dnsNameMatches presented (lower reference) = dnsNameMatches presented reference := by
  have heq : ∀ left right, eqIgnoreCase left (lower right) = eqIgnoreCase left right := by
    intro left right
    rw [Bool.eq_iff_iff, eqIgnoreCase_iff, eqIgnoreCase_iff, lower_lower]
  have heq' : ∀ left right, eqIgnoreCase (lower left) right = eqIgnoreCase left right := by
    intro left right
    rw [Bool.eq_iff_iff, eqIgnoreCase_iff, eqIgnoreCase_iff, lower_lower]
  have hempty : ∀ name, (lower name).isEmpty = name.isEmpty := by simp [lower]
  unfold dnsNameMatches
  rw [lower_splitOnce]
  cases stripWildcard presented with
  | none => simp only [heq]
  | some suffix =>
      cases splitOnce reference with
      | none => rfl
      | some p => simp only [Option.map_some, hempty, heq']

/-- Two spellings of one name: the same address, or the same name up to case. -/
def SameName : ServerName → ServerName → Prop
  | .dns name, .dns other => lower name = lower other
  | .ip address, .ip other => address = other
  | _, _ => False

theorem verifyServerName_lower (certificate : Certificate) (name : Bytes) :
    verifyServerName certificate (.dns (lower name)) = verifyServerName certificate (.dns name) := by
  have hentry : entryMatches (.dns (lower name)) = entryMatches (.dns name) := by
    funext entry
    cases entry with
    | error err => rfl
    | ok general =>
        cases general with
        | dnsName presented => exact dnsNameMatches_lower presented name
        | _ => rfl
  simp only [verifyServerName, checkReference, isValidDnsName_lower, hentry]

theorem SameName.verifyServerName_eq {name other : ServerName} (h : SameName name other)
    (certificate : Certificate) :
    verifyServerName certificate name = verifyServerName certificate other := by
  cases name with
  | dns name =>
      cases other with
      | dns other =>
          have hlower : lower name = lower other := h
          rw [← verifyServerName_lower, hlower, verifyServerName_lower]
      | ip other => exact h.elim
  | ip address =>
      cases other with
      | dns other => exact h.elim
      | ip other =>
          obtain rfl : address = other := h
          rfl

/-! ### How a reference name was matched -/

theorem splitOnce_eq_some {name first rest : Bytes} (h : splitOnce name = some (first, rest)) :
    name = first ++ dot :: rest ∧ dot ∉ first := by
  unfold splitOnce at h
  split at h
  · exact absurd h (by simp)
  · next b tail hdrop =>
      obtain ⟨rfl, rfl⟩ : name.takeWhile (· ≠ dot) = first ∧ tail = rest := by simpa using h
      have hb : b = dot := by
        have hhead := List.head?_dropWhile_not (fun x => decide (x ≠ dot)) name
        rw [hdrop] at hhead
        simpa using hhead
      refine ⟨?_, ?_⟩
      · conv_lhs => rw [← List.takeWhile_append_dropWhile (p := (· ≠ dot)) (l := name), hdrop, hb]
      · intro hmem
        have hall := List.all_eq_true.mp (List.all_takeWhile (p := (· ≠ dot)) (l := name)) dot hmem
        simp at hall

theorem stripWildcard_eq_some {presented suffix : Bytes}
    (h : stripWildcard presented = some suffix) : presented = star :: dot :: suffix := by
  unfold stripWildcard at h
  split at h
  · next a b tail =>
      split at h
      · next hab =>
          obtain ⟨rfl, rfl⟩ := hab
          obtain rfl : tail = suffix := by simpa using h
          rfl
      · exact absurd h (by simp)
  · exact absurd h (by simp)

/-- The two ways a presented name matches: it is the reference name, or it is a wildcard over
everything after the reference name's first label. -/
theorem dnsNameMatches_cases {presented reference : Bytes}
    (h : dnsNameMatches presented reference = true) :
    lower presented = lower reference ∨
    ∃ first suffix, presented = star :: dot :: suffix ∧ dot ∉ first ∧
      lower reference = first ++ dot :: lower suffix := by
  unfold dnsNameMatches at h
  split at h
  · left
    exact eqIgnoreCase_iff.mp (Bool.and_eq_true_iff.mp h).2
  · next suffix hstrip =>
      right
      split at h
      · exact absurd h (by simp)
      · split at h
        · next first rest honce =>
            obtain ⟨hname, hfirst⟩ := splitOnce_eq_some honce
            have hrest := eqIgnoreCase_iff.mp (Bool.and_eq_true_iff.mp h).2
            refine ⟨lower first, suffix, stripWildcard_eq_some hstrip, ?_, ?_⟩
            · intro hmem
              obtain ⟨b, hb, hbdot⟩ := List.mem_map.mp hmem
              exact hfirst (toAsciiLowercase_eq_dot.mp hbdot ▸ hb)
            · rw [← hrest, hname]
              simp [lower, toAsciiLowercase_dot]
        · exact absurd h (by simp)

/-- A dot with everything after it, found in a name whose first label has no dot, is either
the first dot or lies in what follows the first dot. -/
theorem suffix_of_first_label {first rest labels base : Bytes} (hfirst : dot ∉ first)
    (h : first ++ dot :: rest = labels ++ dot :: base) :
    rest = base ∨ ∃ labels', rest = labels' ++ dot :: base := by
  rcases List.append_eq_append_iff.mp h with ⟨more, hlabels, hrest⟩ | ⟨more, hsplit, hbase⟩
  · cases more with
    | nil => left; simpa using hrest
    | cons b more =>
        obtain ⟨-, hrest'⟩ : dot = b ∧ rest = more ++ dot :: base := by simpa using hrest
        exact .inr ⟨more, hrest'⟩
  · cases more with
    | nil => left; simpa [eq_comm] using hbase
    | cons b more =>
        obtain ⟨rfl, -⟩ : dot = b ∧ base = more ++ dot :: rest := by simpa using hbase
        exact absurd (by simp [hsplit]) hfirst

/-- A subtree above the first label contains the wildcard exactly when it contains the names
the wildcard covers; the subtrees at the wildcard and at the name themselves are apart. -/
theorem inside_wildcard {base reference suffix first : Bytes} (hfirst : dot ∉ first)
    (href : lower reference = first ++ dot :: lower suffix) :
    (DnsInside base reference → lower base ≠ lower reference →
      DnsInside base (star :: dot :: suffix) ∧ lower base ≠ lower (star :: dot :: suffix)) ∧
    (DnsInside base (star :: dot :: suffix) → lower base ≠ lower (star :: dot :: suffix) →
      DnsInside base reference) := by
  have hstar : lower (star :: dot :: suffix) = [star] ++ dot :: lower suffix := by
    simp [lower, toAsciiLowercase_dot]
    decide
  have hlen : ∀ labels, lower suffix = labels ++ lower base →
      lower base ≠ lower (star :: dot :: suffix) := by
    intro labels hsuffix heq
    have h1 := congrArg List.length hsuffix
    have h2 := congrArg List.length heq
    simp only [List.length_append, lower_length, List.length_cons] at h1 h2
    omega
  constructor
  · intro hin hne
    rcases hin with rfl | heq | ⟨labels, hlabels⟩
    · exact ⟨.inl rfl, by simp [lower]⟩
    · exact absurd heq hne
    · rw [href] at hlabels
      rcases suffix_of_first_label hfirst hlabels with hbase | ⟨labels', hbase⟩
      · exact ⟨.inr (.inr ⟨[star], by rw [hstar, hbase]⟩), hlen [] (by simp [hbase])⟩
      · refine ⟨.inr (.inr ⟨star :: dot :: labels', ?_⟩), hlen (labels' ++ [dot]) (by simp [hbase])⟩
        rw [hstar, hbase]
        simp
  · intro hin hne
    rcases hin with rfl | heq | ⟨labels, hlabels⟩
    · exact .inl rfl
    · exact absurd heq hne
    · rw [hstar] at hlabels
      have hnodot : dot ∉ [star] := by decide
      rcases suffix_of_first_label hnodot hlabels with hbase | ⟨labels', hbase⟩
      · exact .inr (.inr ⟨first, by rw [href, hbase]⟩)
      · exact .inr (.inr ⟨first ++ dot :: labels', by rw [href, hbase]; simp⟩)

/-! ### Constraints and the reference name -/

/-- A set of constraints binds a reference name: it is in no excluded subtree of its type, and
in a permitted one if there is one of its type. -/
def Binds (constraints : Constraints) : ServerName → Prop
  | .dns reference =>
      (∀ base, .dns base ∈ constraints.excluded → ¬ DnsInside base reference) ∧
      ((∃ base, .dns base ∈ constraints.permitted) →
        ∃ base, .dns base ∈ constraints.permitted ∧ DnsInside base reference)
  | .ip address =>
      (∀ base mask, .ip base mask ∈ constraints.excluded →
        ipWithin base mask address.octets = false) ∧
      ((∃ base mask, .ip base mask ∈ constraints.permitted) →
        ∃ base mask, .ip base mask ∈ constraints.permitted ∧
          ipWithin base mask address.octets = true)

/-- A certificate lists a DNS name itself, not only through a wildcard. -/
def Lists (certificate : Certificate) (reference : Bytes) : Prop :=
  ∃ presented, .ok (.dnsName presented) ∈ certificate.extensions.subjectAltNames ∧
    lower presented = lower reference

/-- No constraint falls between a reference name and the wildcard that covers it: the
certificate lists the name itself, or the name itself is no excluded base and, where DNS
names have to be permitted, is a permitted base or has a matching entry that lies in a
permitted subtree other than that entry itself. -/
def WildcardSafe (certificate : Certificate) (constraints : Constraints) : ServerName → Prop
  | .ip _ => True
  | .dns reference =>
      Lists certificate reference ∨
      ((∀ base, .dns base ∈ constraints.excluded → lower base ≠ lower reference) ∧
      ((∃ base, .dns base ∈ constraints.permitted) →
        ∃ base, .dns base ∈ constraints.permitted ∧
          (lower base = lower reference ∨
          ∃ presented, .ok (.dnsName presented) ∈ certificate.extensions.subjectAltNames ∧
            dnsNameMatches presented reference = true ∧ DnsInside base presented ∧
            lower base ≠ lower presented)))

/-- What constraining establishes of an entry, in terms of containment. -/
theorem respects_dnsName {constraints : Constraints} {certificate : Certificate}
    {presented : Bytes} (h : Respects constraints certificate)
    (hmem : .ok (.dnsName presented) ∈ certificate.extensions.subjectAltNames) :
    (∀ base, .dns base ∈ constraints.excluded → ¬ DnsInside base presented) ∧
    ((∃ base, .dns base ∈ constraints.permitted) →
      ∃ base, .dns base ∈ constraints.permitted ∧ DnsInside base presented) := by
  obtain ⟨hexcluded, hpermitted⟩ := h _ hmem
  constructor
  · intro base hbase hin
    have hcontains := hexcluded _ hbase
    rw [Subtree.contains, dnsWithin_iff.mpr hin] at hcontains
    exact absurd hcontains (by simp)
  · intro hany
    obtain ⟨base, hbase⟩ := hany
    obtain ⟨subtree, hsubtree, hcontains⟩ := hpermitted ⟨_, hbase, rfl⟩
    cases subtree with
    | dns base' => exact ⟨base', hsubtree, dnsWithin_iff.mp hcontains⟩
    | ip address mask => exact absurd hcontains (by simp [Subtree.contains])

theorem respects_ipAddress {constraints : Constraints} {certificate : Certificate}
    {octets : Bytes} (h : Respects constraints certificate)
    (hmem : .ok (.ipAddress octets) ∈ certificate.extensions.subjectAltNames) :
    (∀ base mask, .ip base mask ∈ constraints.excluded → ipWithin base mask octets = false) ∧
    ((∃ base mask, .ip base mask ∈ constraints.permitted) →
      ∃ base mask, .ip base mask ∈ constraints.permitted ∧ ipWithin base mask octets = true) := by
  obtain ⟨hexcluded, hpermitted⟩ := h _ hmem
  refine ⟨fun base mask hbase => hexcluded _ hbase, ?_⟩
  intro hany
  obtain ⟨base, mask, hbase⟩ := hany
  obtain ⟨subtree, hsubtree, hcontains⟩ := hpermitted ⟨_, hbase, rfl⟩
  cases subtree with
  | dns base' => exact absurd hcontains (by simp [Subtree.contains])
  | ip base' mask' => exact ⟨base', mask', hsubtree, hcontains⟩

/-- A name the certificate lists itself inherits what holds of the entry. -/
theorem respects_listed {constraints : Constraints} {certificate : Certificate}
    {reference : Bytes} (h : Respects constraints certificate)
    (hlists : Lists certificate reference) : Binds constraints (.dns reference) := by
  obtain ⟨presented, hmem, hsame⟩ := hlists
  obtain ⟨hexcluded, hpermitted⟩ := respects_dnsName h hmem
  constructor
  · intro base hbase hin
    exact hexcluded base hbase (hin.congr hsame.symm)
  · intro hany
    obtain ⟨base, hbase, hin⟩ := hpermitted hany
    exact ⟨base, hbase, hin.congr hsame⟩

/-- The one gap between matching and constraining, for a DNS name the certificate matches. -/
theorem binds_dns_iff {constraints : Constraints} {certificate : Certificate}
    {reference presented : Bytes} (h : Respects constraints certificate)
    (hmem : .ok (.dnsName presented) ∈ certificate.extensions.subjectAltNames)
    (hmatch : dnsNameMatches presented reference = true) :
    Binds constraints (.dns reference) ↔
      WildcardSafe certificate constraints (.dns reference) := by
  by_cases hlists : Lists certificate reference
  · exact iff_of_true (respects_listed h hlists) (.inl hlists)
  obtain ⟨hexcluded, hpermitted⟩ := respects_dnsName h hmem
  rcases dnsNameMatches_cases hmatch with hsame | ⟨first, suffix, rfl, hfirst, href⟩
  · exact absurd ⟨presented, hmem, hsame⟩ hlists
  constructor
  · intro hbinds
    obtain ⟨hout, hin⟩ := hbinds
    refine .inr ⟨fun base hbase heq => hout base hbase (.inr (.inl heq)), fun hany => ?_⟩
    obtain ⟨base, hbase, hinside⟩ := hin hany
    refine ⟨base, hbase, ?_⟩
    by_cases heq : lower base = lower reference
    · exact .inl heq
    · obtain ⟨hwild, hne⟩ := (inside_wildcard hfirst href).1 hinside heq
      exact .inr ⟨_, hmem, hmatch, hwild, hne⟩
  · intro hsafe
    obtain ⟨hnot, hin⟩ := hsafe.resolve_left hlists
    constructor
    · intro base hbase hinside
      exact hexcluded base hbase
        ((inside_wildcard hfirst href).1 hinside (hnot base hbase)).1
    · intro hany
      obtain ⟨base, hbase, heq | ⟨other, hother, hmatch', hinside, hne⟩⟩ := hin hany
      · exact ⟨base, hbase, .inr (.inl heq)⟩
      · rcases dnsNameMatches_cases hmatch' with hsame | ⟨first', suffix', rfl, hfirst', href'⟩
        · exact absurd ⟨other, hother, hsame⟩ hlists
        · exact ⟨base, hbase, (inside_wildcard hfirst' href').2 hinside hne⟩

theorem binds_ip {constraints : Constraints} {certificate : Certificate} {address : IpAddr}
    (h : Respects constraints certificate)
    (hmem : .ok (.ipAddress address.octets) ∈ certificate.extensions.subjectAltNames) :
    Binds constraints (.ip address) := respects_ipAddress h hmem

/-! ### Verifying a peer -/

/-- A matched certificate has an entry that matches. -/
theorem verifyServerName_ok {certificate : Certificate} {name : ServerName}
    (h : verifyServerName certificate name = .ok ()) :
    ∃ entry ∈ certificate.extensions.subjectAltNames, entryMatches name entry = true := by
  simp only [verifyServerName, bind_eq_ok, refuse_eq_ok] at h
  obtain ⟨_, _, hany⟩ := h
  simpa using hany

/-- The `NameConstraints` bodies of a path: the anchor's and those of the CAs it names. -/
def InForce (intermediates : List Certificate) (anchors : List TrustAnchor) (path : VerifiedPath)
    (body : Bytes) : Prop :=
  (∃ anchor, anchors[path.anchor]? = some anchor ∧ anchor.nameConstraints = some body) ∨
  ∃ i ∈ path.intermediates, ∃ ca, intermediates[i]? = some ca ∧
    ca.extensions.nameConstraints = some body

/-- Every body in force on a validated path parses, and the end-entity certificate respects
it: it is never among the self-issued certificates that are skipped. -/
theorem validatePath_respects {ring : Ring} {endEntity : Certificate}
    {intermediates : List Certificate} {anchors : List TrustAnchor} {options : PathOptions}
    {path : VerifiedPath} {body : Bytes}
    (h : validatePath ring endEntity intermediates anchors options = .ok path)
    (hbody : InForce intermediates anchors path body) :
    ∃ constraints, parseConstraints body = .ok constraints ∧ Respects constraints endEntity := by
  obtain ⟨anchor, cas, hanchor, hcas, -, hvalid⟩ := validatePath_ok h
  rcases hbody with ⟨anchor', hanchor', hbody⟩ | ⟨i, hi, ca, hca, hbody⟩
  · obtain rfl : anchor = anchor' := by simpa [hanchor] using hanchor'
    obtain ⟨constraints, hparse, hall⟩ := hvalid.anchorNames body hbody
    exact ⟨constraints, hparse, hall 0 endEntity rfl (fun _ => rfl)⟩
  · have hmem : some ca ∈ cas.map some := by
      rw [← hcas, ← hca]
      exact List.mem_map_of_mem hi
    obtain ⟨ca', hmem', heq⟩ := List.mem_map.mp hmem
    obtain rfl : ca' = ca := by simpa using heq
    obtain ⟨p, hp⟩ := List.mem_iff_getElem?.mp hmem'
    obtain ⟨constraints, hparse, hall⟩ := hvalid.caNames p ca' body hp hbody
    exact ⟨constraints, hparse, hall 0 endEntity rfl (fun _ => rfl)⟩

/-- For a peer whose certificate was accepted under `name`, a body in force binds the name
exactly when no constraint falls between the name and a wildcard covering it. -/
theorem binds_iff_wildcardSafe {constraints : Constraints} {certificate : Certificate}
    {name : ServerName} (hname : verifyServerName certificate name = .ok ())
    (h : Respects constraints certificate) :
    Binds constraints name ↔ WildcardSafe certificate constraints name := by
  obtain ⟨entry, hmem, hmatch⟩ := verifyServerName_ok hname
  cases name with
  | dns reference =>
      cases entry with
      | error e => exact absurd hmatch (by simp [entryMatches])
      | ok general =>
          cases general with
          | dnsName presented => exact binds_dns_iff h hmem hmatch
          | _ => exact absurd hmatch (by simp [entryMatches])
  | ip address =>
      cases entry with
      | error e => exact absurd hmatch (by simp [entryMatches])
      | ok general =>
          cases general with
          | ipAddress presented =>
              obtain rfl : presented = address.octets := by simpa [entryMatches] using hmatch
              exact iff_of_true (binds_ip h hmem) trivial
          | _ => exact absurd hmatch (by simp [entryMatches])

/-- Name constraints bind the reference name exactly when no constraint in force falls between
the name and a wildcard entry that covers it. For an IP reference, and for a DNS reference
the certificate lists itself, they always do. -/
theorem verifyPeerCertificate_binds_iff (ring : Ring) (endEntity : Certificate)
    (intermediates : List Certificate) (anchors : List TrustAnchor) (serverName : ServerName)
    (options : PathOptions) (path : VerifiedPath)
    (h : verifyPeerCertificate ring endEntity intermediates anchors serverName options
      = .ok path) :
    (∀ body, InForce intermediates anchors path body →
      ∃ constraints, parseConstraints body = .ok constraints ∧ Binds constraints serverName) ↔
    ∀ body, InForce intermediates anchors path body →
      ∃ constraints, parseConstraints body = .ok constraints ∧
        WildcardSafe endEntity constraints serverName := by
  simp only [verifyPeerCertificate, bind_eq_ok, mapErr_eq_ok] at h
  obtain ⟨_, hname, hpath⟩ := h
  -- One body at a time: it parses to one set of constraints, which the certificate respects.
  have hone : ∀ body, InForce intermediates anchors path body →
      ((∃ constraints, parseConstraints body = .ok constraints ∧ Binds constraints serverName) ↔
      ∃ constraints, parseConstraints body = .ok constraints ∧
        WildcardSafe endEntity constraints serverName) := by
    intro body hbody
    obtain ⟨constraints, hparse, hrespects⟩ := validatePath_respects hpath hbody
    have hiff := binds_iff_wildcardSafe hname hrespects
    simp only [hparse, Except.ok.injEq, exists_eq_left', hiff]
  exact forall_congr' fun body => forall_congr' fun hbody => hone body hbody

/-- A leaf whose only name is the wildcard `*.b.c`. -/
def wildcardLeaf : Certificate :=
  sampleCertificate [1] [2] [20] [10]
    { subjectAltName := some [0x82, 5, 0x2a, 0x2e, 98, 0x2e, 99] }

/-- An anchor that excludes the host `a.b.c`. -/
def excludingAnchor : TrustAnchor :=
  ⟨[1], ⟨⟨Oid.ed25519, none, []⟩, [10], []⟩,
    some [0xa1, 9, 0x30, 7, 0x82, 5, 97, 0x2e, 98, 0x2e, 99]⟩

/-- An anchor that permits everything under `c`. -/
def permittingAnchor : TrustAnchor :=
  ⟨[1], ⟨⟨Oid.ed25519, none, []⟩, [10], []⟩, some [0xa0, 5, 0x30, 3, 0x82, 1, 99]⟩

/-- The wildcard under an anchor that permits its parent: the constraint binds the name. -/
theorem verifyPeerCertificate_binds_iff_permitted :
    verifyPeerCertificate Ring.sample wildcardLeaf [] [permittingAnchor]
      (.dns [97, 0x2e, 98, 0x2e, 99]) { time := 50 } = .ok ⟨0, []⟩ ∧
    ∀ body, InForce [] [permittingAnchor] ⟨0, []⟩ body →
      ∃ constraints, parseConstraints body = .ok constraints ∧
        Binds constraints (.dns [97, 0x2e, 98, 0x2e, 99]) := by
  refine ⟨rfl, ?_⟩
  refine (verifyPeerCertificate_binds_iff Ring.sample wildcardLeaf [] [permittingAnchor]
    (.dns [97, 0x2e, 98, 0x2e, 99]) { time := 50 } ⟨0, []⟩ rfl).mpr ?_
  intro body hbody
  obtain rfl : body = [0xa0, 5, 0x30, 3, 0x82, 1, 99] := by
    simpa [InForce, permittingAnchor, eq_comm] using hbody
  refine ⟨⟨[.dns [99]], []⟩, rfl, .inr ⟨by simp, fun _ => ⟨[99], by simp, .inr ?_⟩⟩⟩
  have hmem : .ok (.dnsName [0x2a, 0x2e, 98, 0x2e, 99])
      ∈ wildcardLeaf.extensions.subjectAltNames := List.mem_cons_self
  exact ⟨_, hmem, by decide, .inr (.inr ⟨[0x2a, 0x2e, 98], by decide⟩), by decide⟩

/-- An excluded host is reached through the wildcard that covers it: the peer is accepted as
`a.b.c`, and `a.b.c` is in a subtree that the anchor excludes. -/
theorem verifyPeerCertificate_not_binds :
    verifyPeerCertificate Ring.sample wildcardLeaf [] [excludingAnchor]
      (.dns [97, 0x2e, 98, 0x2e, 99]) { time := 50 } = .ok ⟨0, []⟩ ∧
    ¬ ∀ body, InForce [] [excludingAnchor] ⟨0, []⟩ body →
      ∃ constraints, parseConstraints body = .ok constraints ∧
        Binds constraints (.dns [97, 0x2e, 98, 0x2e, 99]) := by
  refine ⟨rfl, ?_⟩
  intro hall
  obtain ⟨constraints, hparse, hexcluded, -⟩ :=
    hall [0xa1, 9, 0x30, 7, 0x82, 5, 97, 0x2e, 98, 0x2e, 99]
      (.inl ⟨excludingAnchor, rfl, rfl⟩)
  have hreal : parseConstraints [0xa1, 9, 0x30, 7, 0x82, 5, 97, 0x2e, 98, 0x2e, 99]
      = .ok ⟨[], [.dns [97, 0x2e, 98, 0x2e, 99]]⟩ := rfl
  obtain rfl : Constraints.mk [] [.dns [97, 0x2e, 98, 0x2e, 99]] = constraints := by
    simpa [hreal] using hparse
  exact hexcluded [97, 0x2e, 98, 0x2e, 99] (by simp) (.inr (.inl rfl))

/-! ### Exclusions that can be enforced -/

/-- Labels taken off the left of a usable name leave a usable name. -/
theorem isValidDnsName_of_append {labels base : Bytes} (hne : base ≠ [])
    (h : isValidDnsName (labels ++ dot :: base) = true) : isValidDnsName base = true := by
  simp only [isValidDnsName, Bool.and_eq_true, Bool.not_eq_true', Bool.or_eq_false_iff,
    decide_eq_false_iff_not, Nat.not_lt, List.splitOn_append_cons_self, List.all_append] at h ⊢
  obtain ⟨⟨⟨⟨-, hlen⟩, hascii⟩, hlast, -⟩, -, hlabels⟩ := h
  have hempty : base.isEmpty = false := by simpa using hne
  refine ⟨⟨⟨⟨hempty, ?_⟩, ?_⟩, ?_, ?_⟩, hlabels⟩
  · simp only [List.length_append, List.length_cons] at hlen
    omega
  · simp only [isAscii, List.all_append, List.all_cons, Bool.and_eq_true,
      Bool.not_eq_false'] at hascii ⊢
    exact hascii.2.2
  · rw [List.getLast?_append, List.getLast?_cons] at hlast
    cases hb : base.getLast? with
    | none => rfl
    | some b => simpa [hb] using hlast
  · -- A leading dot would be an empty label.
    cases base with
    | nil => exact absurd rfl hne
    | cons b rest =>
        by_cases hb : b = dot
        · have hsplit : (b :: rest).splitOn dot = [] :: rest.splitOn dot := by
            rw [hb]
            exact List.splitOn_append_cons_self [] rest
          rw [hsplit] at hlabels
          simp at hlabels
        · simpa using hb

/-- A subtree contains a usable name exactly when its base is empty or is one itself. -/
theorem exists_dnsWithin_iff {base : Bytes} :
    (∃ name, isValidDnsName name = true ∧ dnsWithin base name = true) ↔
      base = [] ∨ isValidDnsName base = true := by
  constructor
  · intro h
    obtain ⟨name, hvalid, hwithin⟩ := h
    rcases dnsWithin_iff.mp hwithin with hempty | hsame | ⟨labels, hlabels⟩
    · exact .inl hempty
    · refine .inr ?_
      rw [← isValidDnsName_lower, hsame, isValidDnsName_lower]
      exact hvalid
    · by_cases hne : base = []
      · exact .inl hne
      · refine .inr ?_
        rw [← isValidDnsName_lower, hlabels] at hvalid
        rw [← isValidDnsName_lower]
        exact isValidDnsName_of_append (by simpa [lower] using hne) hvalid
  · intro h
    rcases h with rfl | hvalid
    · exact ⟨[97], by decide, rfl⟩
    · exact ⟨base, hvalid, dnsWithin_iff.mpr (.inr (.inl rfl))⟩

/-- A value among those a reader has still to read, in order and up to the first that fails. -/
inductive Holds : Der.Reader → Value → Prop
  | here {r r' : Der.Reader} {value : Value} (h : on r readAny = .ok (value, r')) :
      Holds r value
  | later {r r' : Der.Reader} {first value : Value} (h : on r readAny = .ok (first, r'))
      (hrest : Holds r' value) : Holds r value

/-- A `NameConstraints` body lists `base` as an excluded DNS subtree: a `[2]` in a subtree in
the `[1]` list. -/
def ListsExcluded (body base : Bytes) : Prop :=
  ∃ list subtree value, Holds (Der.Reader.new body) list ∧ list.tag = .context 1 true ∧
    Holds (Der.Reader.new list.contents) subtree ∧
    Holds (Der.Reader.new subtree.contents) value ∧ value.tag.octet = 0x82 ∧
    value.contents = base

theorem holds_iff_of_readAny {r r' : Der.Reader} {first : Value}
    (h : on r readAny = .ok (first, r')) (value : Value) :
    Holds r value ↔ value = first ∨ Holds r' value := by
  constructor
  · intro hholds
    cases hholds with
    | here h' =>
        rw [h] at h'
        obtain ⟨rfl, rfl⟩ : first = value ∧ _ := by simpa using h'
        exact .inl rfl
    | later h' hrest =>
        rw [h] at h'
        obtain ⟨rfl, rfl⟩ : first = _ ∧ r' = _ := by simpa using h'
        exact .inr hrest
  · intro hcase
    rcases hcase with rfl | hrest
    · exact .here h
    · exact .later h hrest

theorem not_holds_of_isEmpty {r : Der.Reader} (hempty : r.isEmpty = true) (value : Value) :
    ¬ Holds r value := by
  have hpos : r.input.length ≤ r.pos := by simpa [Der.Reader.isEmpty] using hempty
  intro h
  cases h with
  | here h =>
      obtain ⟨-, hlt, hend⟩ := on_readAny_advances h
      omega
  | later h =>
      obtain ⟨-, hlt, hend⟩ := on_readAny_advances h
      omega

/-- A parsed subtree is one value that holds one value, its base. -/
theorem parseSubtree_inv {r r' : Der.Reader} {subtree : Subtree}
    (h : parseSubtree r = .ok (subtree, r')) :
    ∃ sequence, on r readAny = .ok (sequence, r') ∧
      ∀ base, subtree = .dns base ↔
        ∃ value, Holds (Der.Reader.new sequence.contents) value ∧ value.tag.octet = 0x82 ∧
          value.contents = base := by
  simp only [parseSubtree, bind_eq_ok, mapErr_eq_ok, refuse_eq_ok] at h
  obtain ⟨⟨sequence, r₁⟩, hsequence, ⟨value, inner⟩, hvalue, _, hinner, h⟩ := h
  have hholds : ∀ v, Holds (Der.Reader.new sequence.contents) v ↔ v = value := by
    intro v
    rw [holds_iff_of_readAny hvalue]
    simp [not_holds_of_isEmpty (by simpa using hinner) v]
  obtain ⟨hany, -⟩ := read_inv hsequence
  split at h
  · next htag =>
      have htag' : value.tag.octet = 0x82 := htag
      obtain ⟨_, _, hout⟩ := bind_eq_ok.mp h
      obtain ⟨rfl, rfl⟩ : Subtree.dns value.contents = subtree ∧ r₁ = r' := by simpa using hout
      exact ⟨sequence, hany, fun base => by simp [hholds, htag']⟩
  · next htag =>
      have htag' : value.tag.octet = 0x87 := htag
      have hne : ∀ base, subtree ≠ .dns base := by
        intro base heq
        obtain rfl := heq
        split at h
        · simp at h
        · split at h <;> simp at h
      have hr : r₁ = r' := by
        split at h
        · simp_all
        · split at h
          · simp_all
          · simp at h
      exact ⟨sequence, hr ▸ hany, fun base => by simp [hholds, hne, htag']⟩
  · exact absurd h (by simp)

theorem parseSubtreeLoop_dns_iff {fuel : Nat} {r : Der.Reader} {subtrees : List Subtree}
    (h : parseSubtreeLoop fuel r = .ok subtrees) (hfuel : r.input.length ≤ r.pos + fuel)
    (base : Bytes) :
    .dns base ∈ subtrees ↔ ∃ subtree value, Holds r subtree ∧
      Holds (Der.Reader.new subtree.contents) value ∧ value.tag.octet = 0x82 ∧
      value.contents = base := by
  -- By induction on the fuel, which covers what is left to read.
  induction fuel generalizing r subtrees with
  | zero =>
      obtain rfl : [] = subtrees := by simpa [parseSubtreeLoop] using h
      have hempty : r.isEmpty = true := by simpa [Der.Reader.isEmpty] using hfuel
      simp [not_holds_of_isEmpty hempty]
  | succ fuel ih =>
      rw [parseSubtreeLoop] at h
      split at h
      · next hempty =>
          obtain rfl : [] = subtrees := by simpa using h
          simp [not_holds_of_isEmpty hempty]
      · simp only [bind_eq_ok] at h
        obtain ⟨⟨subtree, r'⟩, hone, rest, hrest, hout⟩ := h
        obtain rfl : subtree :: rest = subtrees := by simpa using hout
        obtain ⟨sequence, hany, hdns⟩ := parseSubtree_inv hone
        obtain ⟨hin, hpos, -⟩ := on_readAny_advances hany
        have hnext := ih hrest (by show r'.input.length ≤ r'.pos + fuel; rw [hin]; omega)
        rw [List.mem_cons, hnext, eq_comm, hdns]
        simp only [holds_iff_of_readAny hany]
        constructor
        · intro h
          rcases h with ⟨value, hvalue⟩ | ⟨subtree, value, hsub, hvalue⟩
          · exact ⟨sequence, value, .inl rfl, hvalue⟩
          · exact ⟨subtree, value, .inr hsub, hvalue⟩
        · intro h
          obtain ⟨subtree, value, rfl | hsub, hvalue⟩ := h
          · exact .inl ⟨value, hvalue⟩
          · exact .inr ⟨subtree, value, hsub, hvalue⟩

theorem parseSubtrees_inv {tag : Tag} {r r' : Der.Reader} {subtrees : List Subtree}
    (h : parseSubtrees tag r = .ok (subtrees, r')) :
    (subtrees = [] ∧ r' = r) ∨
    ∃ list, on r readAny = .ok (list, r') ∧ list.tag = tag ∧
      ∀ base, .dns base ∈ subtrees ↔ ∃ subtree value,
        Holds (Der.Reader.new list.contents) subtree ∧
        Holds (Der.Reader.new subtree.contents) value ∧ value.tag.octet = 0x82 ∧
        value.contents = base := by
  simp only [parseSubtrees, bind_eq_ok, mapErr_eq_ok] at h
  obtain ⟨⟨value, r₁⟩, hvalue, h⟩ := h
  rcases readOptional_inv hvalue with ⟨rfl, rfl⟩ | ⟨list, rfl, hany, htag⟩
  · obtain ⟨rfl, rfl⟩ : [] = subtrees ∧ r₁ = r' := by simpa using h
    exact .inl ⟨rfl, rfl⟩
  · simp only [bind_eq_ok, refuse_eq_ok] at h
    obtain ⟨_, _, loop, hloop, hout⟩ := h
    obtain ⟨rfl, rfl⟩ : loop = subtrees ∧ r₁ = r' := by simpa using hout
    exact .inr ⟨list, hany, htag, parseSubtreeLoop_dns_iff hloop (by simp [Der.Reader.new])⟩

/-- The DNS exclusions of accepted constraints are those their encoding lists. -/
theorem mem_excluded_iff {body : Bytes} {constraints : Constraints}
    (h : parseConstraints body = .ok constraints) (base : Bytes) :
    .dns base ∈ constraints.excluded ↔ ListsExcluded body base := by
  simp only [parseConstraints, bind_eq_ok, mapErr_eq_ok] at h
  obtain ⟨⟨permitted, r₁⟩, hpermitted, ⟨excluded, r₂⟩, hexcluded, _, hfinish, hout⟩ := h
  obtain rfl : Constraints.mk permitted excluded = constraints := by simpa using hout
  have hempty : r₂.isEmpty = true := by simpa [Der.Reader.finish] using hfinish
  have hend := not_holds_of_isEmpty hempty
  -- The permitted list, if there is one, is not the excluded one.
  have hskip : ∀ list, list.tag = .context 1 true →
      (Holds (Der.Reader.new body) list ↔ Holds r₁ list) := by
    intro list htag
    rcases parseSubtrees_inv hpermitted with ⟨-, rfl⟩ | ⟨first, hany, hfirst, -⟩
    · exact Iff.rfl
    · rw [holds_iff_of_readAny hany]
      have hne : list ≠ first := by
        intro h
        obtain rfl := h
        rw [hfirst] at htag
        exact absurd htag (by decide)
      simp [hne]
  unfold ListsExcluded
  rcases parseSubtrees_inv hexcluded with ⟨rfl, rfl⟩ | ⟨list, hany, htag, hdns⟩
  · constructor
    · simp
    · intro h
      obtain ⟨list, _, _, hlist, htag, -⟩ := h
      exact absurd ((hskip list htag).mp hlist) (hend list)
  · rw [hdns]
    constructor
    · intro h
      obtain ⟨subtree, value, hrest⟩ := h
      exact ⟨list, subtree, value, (hskip list htag).mpr (.here hany), htag, hrest⟩
    · intro h
      obtain ⟨list', subtree, value, hlist, htag', hrest⟩ := h
      rw [hskip list' htag', holds_iff_of_readAny hany] at hlist
      rcases hlist with rfl | hlist
      · exact ⟨subtree, value, hrest⟩
      · exact absurd hlist (hend list')

/-- Every DNS exclusion of an accepted body can be enforced against some name exactly when every
base the body lists for one is empty or a usable name. -/
theorem parseConstraints_enforceable_iff (body : Bytes) (constraints : Constraints)
    (h : parseConstraints body = .ok constraints) :
    (∀ base, .dns base ∈ constraints.excluded →
      ∃ name, isValidDnsName name = true ∧ dnsWithin base name = true) ↔
    ∀ base, ListsExcluded body base → base = [] ∨ isValidDnsName base = true := by
  constructor
  · intro hall base hbase
    exact exists_dnsWithin_iff.mp (hall base ((mem_excluded_iff h base).mpr hbase))
  · intro hall base hbase
    exact exists_dnsWithin_iff.mpr (hall base ((mem_excluded_iff h base).mp hbase))

/-- The body that excludes `b.c` is accepted, and its exclusion can be enforced. -/
theorem parseConstraints_enforceable_iff_sample :
    ∃ constraints, parseConstraints [0xa1, 7, 0x30, 5, 0x82, 3, 98, 0x2e, 99] = .ok constraints ∧
    ∀ base, ListsExcluded [0xa1, 7, 0x30, 5, 0x82, 3, 98, 0x2e, 99] base →
      base = [] ∨ isValidDnsName base = true := by
  refine ⟨⟨[], [.dns [98, 0x2e, 99]]⟩, rfl, ?_⟩
  refine (parseConstraints_enforceable_iff _ ⟨[], [.dns [98, 0x2e, 99]]⟩ rfl).mp ?_
  intro base hbase
  obtain rfl : base = [98, 0x2e, 99] := by simpa using hbase
  exact ⟨[98, 0x2e, 99], by decide, by decide⟩

/-- The body that excludes `.b.c` is accepted, and no usable name is in its subtree. -/
theorem parseConstraints_unenforceable :
    parseConstraints [0xa1, 8, 0x30, 6, 0x82, 4, 0x2e, 98, 0x2e, 99]
      = .ok ⟨[], [.dns [0x2e, 98, 0x2e, 99]]⟩ ∧
    ¬ ∃ name, isValidDnsName name = true ∧ dnsWithin [0x2e, 98, 0x2e, 99] name = true := by
  refine ⟨rfl, ?_⟩
  intro hname
  have hbase := exists_dnsWithin_iff.mp hname
  exact absurd hbase (by decide)

end RustyTls
