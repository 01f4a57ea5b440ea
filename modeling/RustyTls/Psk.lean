import RustyTls.HandshakeCodec
import RustyTls.Server

/-!
# RustyTls.Psk

Which pre-shared key a server resumes with.

`selectPsk` walks the offered identities with an index that also names a binder. The rule it
implements is stated without a loop: the first identity whose ticket is `Acceptable` decides,
and only its binder is looked at. The truncation point, which the source finds by encoding the
binders again, is where the binder list of the hello begins.
-/

namespace RustyTls.Server

open Core

/-- An offered identity is one this handshake can resume from, and `contents` is what its ticket
says. -/
structure Acceptable (ring : Ring) (config : ServerConfig) (tickets : Tickets)
    (suite : CipherSuite) (offered : PskIdentity) (contents : TicketContents) : Prop where
  opens : TicketContents.openContents ring offered.identity tickets.keys = some (.ok contents)
  suite_eq : contents.suite = suite
  current : contents.isCurrent tickets.now = true
  identity : contents.identity = TicketContents.identityOf ring config.certificates
  age : ∀ skew, tickets.maxAgeSkewMs = some skew →
    contents.ageIsPlausible offered.obfuscatedTicketAge tickets.now skew = true
  client : clientIsStillAcceptable ring config contents = true

/-- `index` is the place of the first acceptable identity. -/
structure FirstAcceptable (ring : Ring) (config : ServerConfig) (tickets : Tickets)
    (suite : CipherSuite) (identities : List PskIdentity) (index : Nat)
    (contents : TicketContents) : Prop where
  acceptable : ∃ offered, identities[index]? = some offered ∧
    Acceptable ring config tickets suite offered contents
  first : ∀ earlier < index, ∀ offered, identities[earlier]? = some offered →
    ∀ other, ¬ Acceptable ring config tickets suite offered other

variable {ring : Ring} {config : ServerConfig} {tickets : Tickets} {suite : CipherSuite}
  {hash : Hash} {covered : Bytes} {binders : List Bytes}

theorem usable_iff {offered : PskIdentity} {contents : TicketContents}
    (hopens : TicketContents.openContents ring offered.identity tickets.keys = some (.ok contents)) :
    usable ring config tickets suite offered contents = true ↔
      Acceptable ring config tickets suite offered contents := by
  simp only [usable, Bool.and_eq_true, beq_iff_eq, Option.all_eq_true]
  constructor
  · intro h
    obtain ⟨⟨⟨⟨hsuite, hcurrent⟩, hidentity⟩, hage⟩, hclient⟩ := h
    exact ⟨hopens, hsuite, hcurrent, hidentity, fun skew hskew => hage skew hskew, hclient⟩
  · intro h
    exact ⟨⟨⟨⟨h.suite_eq, h.current⟩, h.identity⟩, fun skew hskew => h.age skew hskew⟩, h.client⟩

theorem Acceptable.unique {offered : PskIdentity} {contents other : TicketContents}
    (h : Acceptable ring config tickets suite offered contents)
    (h' : Acceptable ring config tickets suite offered other) : contents = other := by
  have hboth := h.opens.symm.trans h'.opens
  simpa using hboth

/-- The first acceptable identity and its ticket are determined. -/
theorem FirstAcceptable.unique {identities : List PskIdentity} {i j : Nat}
    {contents other : TicketContents}
    (hi : FirstAcceptable ring config tickets suite identities i contents)
    (hj : FirstAcceptable ring config tickets suite identities j other) :
    i = j ∧ contents = other := by
  obtain ⟨offered, hoffered, hacc⟩ := hi.acceptable
  obtain ⟨offered', hoffered', hacc'⟩ := hj.acceptable
  have hij : i = j := by
    rcases Nat.lt_trichotomy i j with hlt | heq | hgt
    · exact absurd hacc (hj.first i hlt offered hoffered contents)
    · exact heq
    · exact absurd hacc' (hi.first j hgt offered' hoffered' other)
  refine ⟨hij, ?_⟩
  rw [hij, hoffered'] at hoffered
  obtain rfl := Option.some.inj hoffered
  exact hacc.unique hacc'

theorem FirstAcceptable.head {offered : PskIdentity} {rest : List PskIdentity}
    {contents : TicketContents} (h : Acceptable ring config tickets suite offered contents) :
    FirstAcceptable ring config tickets suite (offered :: rest) 0 contents :=
  ⟨⟨offered, rfl, h⟩, fun _ hlt => absurd hlt (Nat.not_lt_zero _)⟩

/-- An identity that is not acceptable moves the first one back by a place. -/
theorem FirstAcceptable.skip {offered : PskIdentity} {rest : List PskIdentity} {index : Nat}
    {contents : TicketContents}
    (hskip : ∀ other, ¬ Acceptable ring config tickets suite offered other)
    (h : FirstAcceptable ring config tickets suite rest index contents) :
    FirstAcceptable ring config tickets suite (offered :: rest) (index + 1) contents := by
  refine ⟨h.acceptable, ?_⟩
  intro earlier hlt offered' hoffered'
  cases earlier with
  | zero =>
      obtain rfl : offered = offered' := by simpa using hoffered'
      exact hskip
  | succ earlier => exact h.first earlier (by omega) offered' hoffered'

/-- What the loop returns for an identity list, once the rule has been applied to it. -/
inductive Selection (ring : Ring) (config : ServerConfig) (tickets : Tickets) (suite : CipherSuite)
    (hash : Hash) (covered : Bytes) (binders : List Bytes) (base : Nat)
    (identities : List PskIdentity) : Except ServerError (Option AcceptedPsk) → Prop
  | accepted {index : Nat} {contents : TicketContents} {binder : Bytes} :
      FirstAcceptable ring config tickets suite identities index contents →
      binders[base + index]? = some binder →
      verifyPskBinder ring hash contents.psk covered binder = true →
      Selection ring config tickets suite hash covered binders base identities
        (.ok (some ⟨UInt16.ofNat (base + index), contents.psk, contents.clientCertificates⟩))
  | refused {index : Nat} {contents : TicketContents} {binder : Bytes} :
      FirstAcceptable ring config tickets suite identities index contents →
      binders[base + index]? = some binder →
      verifyPskBinder ring hash contents.psk covered binder = false →
      Selection ring config tickets suite hash covered binders base identities (.error .badBinder)
  | noneAcceptable : (∀ offered ∈ identities, ∀ contents,
        ¬ Acceptable ring config tickets suite offered contents) →
      Selection ring config tickets suite hash covered binders base identities (.ok none)

/-- Passing over an identity that is not acceptable. -/
theorem Selection.skip {offered : PskIdentity} {rest : List PskIdentity} {base : Nat}
    {result : Except ServerError (Option AcceptedPsk)}
    (hskip : ∀ other, ¬ Acceptable ring config tickets suite offered other)
    (h : Selection ring config tickets suite hash covered binders (base + 1) rest result) :
    Selection ring config tickets suite hash covered binders base (offered :: rest) result := by
  have hplace : ∀ index, base + 1 + index = base + (index + 1) := by
    intro index
    omega
  cases h with
  | accepted hfirst hbinder hverify =>
      rw [hplace] at hbinder ⊢
      exact .accepted (hfirst.skip hskip) hbinder hverify
  | refused hfirst hbinder hverify =>
      rw [hplace] at hbinder
      exact .refused (hfirst.skip hskip) hbinder hverify
  | noneAcceptable hnone =>
      refine .noneAcceptable ?_
      intro offered' hmem
      rcases List.mem_cons.mp hmem with rfl | hmem
      · exact hskip
      · exact hnone offered' hmem

/-- Every ticket that opens decodes, or is of another version. -/
def Decodes (ring : Ring) (tickets : Tickets) (offered : PskIdentity) : Prop :=
  ∀ err, TicketContents.openContents ring offered.identity tickets.keys ≠ some (.error err)

/-- The loop follows the rule. -/
theorem selectPsk_selection (config : ServerConfig) (suite : CipherSuite) (hash : Hash)
    (covered : Bytes) : ∀ (identities : List PskIdentity) (base : Nat),
    (∀ offered ∈ identities, Decodes ring tickets offered) →
    base + identities.length ≤ binders.length →
    Selection ring config tickets suite hash covered binders base identities
      (selectPsk ring config tickets suite hash covered binders base identities) := by
  intro identities
  induction identities with
  | nil =>
      intro base _ _
      exact .noneAcceptable (by simp)
  | cons offered rest ih =>
      intro base hdecode hlen
      have hrest := ih (base + 1) (fun o ho => hdecode o (List.mem_cons_of_mem _ ho))
        (by simp only [List.length_cons] at hlen; omega)
      rw [selectPsk]
      cases hopen : TicketContents.openContents ring offered.identity tickets.keys with
      | none =>
          refine hrest.skip ?_
          intro other hacc
          have hopens := hacc.opens
          simp [hopen] at hopens
      | some result =>
          cases result with
          | error err => exact absurd hopen (hdecode offered (List.mem_cons_self ..) err)
          | ok contents =>
              simp only
              by_cases husable : usable ring config tickets suite offered contents = true
              · have hacc := (usable_iff hopen).mp husable
                have hbound : base < binders.length := by
                  simp only [List.length_cons] at hlen
                  omega
                have hbinder : binders[base]? = some binders[base] := List.getElem?_eq_getElem hbound
                rw [if_pos husable, hbinder, okOr_some, ok_bind]
                cases hverify : verifyPskBinder ring hash contents.psk covered binders[base] with
                | false =>
                    rw [refuse_pos _ rfl]
                    exact .refused (.head hacc) hbinder hverify
                | true =>
                    rw [refuse_neg _ (by simp)]
                    exact .accepted (.head hacc) hbinder hverify
              · rw [if_neg husable]
                refine hrest.skip ?_
                intro other hacc
                have hboth := hopen.symm.trans hacc.opens
                obtain rfl : contents = other := by simpa using hboth
                exact husable ((usable_iff hopen).mpr hacc)

/-- The same without assuming that tickets decode: what an accepted PSK says about the identity and
the binder at its index. -/
theorem selectPsk_inv : ∀ (identities : List PskIdentity) (base : Nat) (accepted : AcceptedPsk),
    selectPsk ring config tickets suite hash covered binders base identities
      = .ok (some accepted) →
    ∃ index offered contents binder, identities[index]? = some offered ∧
      Acceptable ring config tickets suite offered contents ∧
      binders[base + index]? = some binder ∧
      verifyPskBinder ring hash contents.psk covered binder = true ∧
      accepted = ⟨UInt16.ofNat (base + index), contents.psk, contents.clientCertificates⟩ := by
  intro identities
  induction identities with
  | nil =>
      intro base accepted h
      simp [selectPsk] at h
  | cons offered rest ih =>
      intro base accepted h
      have hlater : selectPsk ring config tickets suite hash covered binders (base + 1) rest
          = .ok (some accepted) → ∃ index offered' contents binder,
          (offered :: rest)[index]? = some offered' ∧
          Acceptable ring config tickets suite offered' contents ∧
          binders[base + index]? = some binder ∧
          verifyPskBinder ring hash contents.psk covered binder = true ∧
          accepted = ⟨UInt16.ofNat (base + index), contents.psk, contents.clientCertificates⟩ := by
        intro h
        obtain ⟨index, offered', contents, binder, hoffered, hfacts⟩ := ih _ _ h
        rw [Nat.add_right_comm, Nat.add_assoc] at hfacts
        exact ⟨index + 1, offered', contents, binder, hoffered, hfacts⟩
      rw [selectPsk] at h
      split at h
      · exact hlater h
      · simp at h
      · next contents hopen =>
          split at h
          · next husable =>
              simp only [bind_eq_ok, okOr_eq_ok, refuse_eq_ok] at h
              obtain ⟨binder, hbinder, _, hverify, heq⟩ := h
              exact ⟨0, offered, contents, binder, rfl, (usable_iff hopen).mp husable, hbinder,
                by simpa using hverify, (Option.some.inj (Except.ok.inj heq)).symm⟩
          · exact hlater h

/-- An offer holds fewer identities than an index can name. -/
theorem identities_length_lt {data : Bytes} {offer : PresharedKeyOffer}
    (h : PresharedKeyOffer.parse data = .ok offer) : offer.identities.length < 2 ^ 16 := by
  obtain ⟨-, hfits⟩ := PresharedKeyOffer.parse_iff.mp h
  have hlen := hfits.identities
  have hle : ∀ identities : List PskIdentity, identities.length ≤ (identities.flatMap
      fun identity => prefixed 2 identity.identity ++
        beBytes 4 identity.obfuscatedTicketAge.toNat).length := by
    intro identities
    induction identities with
    | nil => simp
    | cons identity identities ih =>
        simp only [List.length_cons, List.flatMap_cons, List.length_append, prefixed_length,
          beBytes_length]
        omega
  have := hle offer.identities
  simp only [identityBytes, prefixed_length] at hlen
  omega

/-- What an accepted PSK stands on: the ticket at its index among those offered, which opened to it
and to its client's chain, and the binder at that index, which verified under it over the
transcript. -/
structure PskAccepted (ring : Ring) (config : ServerConfig) (hello : ClientHello)
    (encodedHello transcriptPrefix : Bytes) (suite : CipherSuite) (hash : Hash)
    (accepted : AcceptedPsk) (tickets : Tickets) (offer : PresharedKeyOffer) (truncated : Bytes)
    (offered : PskIdentity) (contents : TicketContents) (binder : Bytes) : Prop where
  configured : config.tickets = some tickets
  parsed : ∃ data, find hello.extensions ExtensionType.preSharedKey = some data ∧
    PresharedKeyOffer.parse data = .ok offer
  cut : offer.truncated encodedHello = .ok truncated
  identity_at : offer.identities[accepted.index.toNat]? = some offered
  acceptable : Acceptable ring config tickets suite offered contents
  binder_at : offer.binders[accepted.index.toNat]? = some binder
  verified : verifyPskBinder ring hash contents.psk (hash.hash ring (transcriptPrefix ++ truncated))
    binder = true
  psk_eq : accepted.psk = contents.psk
  chain_eq : accepted.clientCertificates = contents.clientCertificates

theorem PskAccepted.mem_identities {hello : ClientHello} {encodedHello transcriptPrefix : Bytes}
    {accepted : AcceptedPsk} {offer : PresharedKeyOffer} {truncated binder : Bytes}
    {offered : PskIdentity} {contents : TicketContents}
    (h : PskAccepted ring config hello encodedHello transcriptPrefix suite hash accepted tickets offer
      truncated offered contents binder) : offered ∈ offer.identities :=
  List.mem_of_getElem? h.identity_at

theorem acceptPsk_inv {hello : ClientHello} {encodedHello transcriptPrefix : Bytes}
    {accepted : AcceptedPsk} (h : acceptPsk ring config hello encodedHello transcriptPrefix suite hash
      = .ok (some accepted)) :
    ∃ tickets offer truncated offered contents binder,
      PskAccepted ring config hello encodedHello transcriptPrefix suite hash accepted tickets offer
        truncated offered contents binder := by
  simp only [acceptPsk, bind_eq_ok, refuse_eq_ok] at h
  obtain ⟨_, -, h⟩ := h
  split at h
  · simp at h
  next data hdata =>
  rw [bind_eq_ok] at h
  obtain ⟨_, -, h⟩ := h
  split at h
  · simp at h
  next tickets htickets =>
  split at h
  · simp only [takeOffer, bind_eq_ok, mapErr_eq_ok] at h
    obtain ⟨offer, hoffer, truncated, htruncated, h⟩ := h
    obtain ⟨index, offered, contents, binder, hidentity, hacc, hbinder, hverify, rfl⟩ :=
      selectPsk_inv _ _ _ h
    rw [Nat.zero_add] at hbinder
    have hindex : (UInt16.ofNat (0 + index)).toNat = index := by
      have hbound := (List.getElem?_eq_some_iff.mp hidentity).1
      have hcount := identities_length_lt hoffer
      simpa using Nat.mod_eq_of_lt (Nat.lt_trans hbound hcount)
    refine ⟨tickets, offer, truncated, offered, contents, binder, htickets, ⟨data, hdata, hoffer⟩,
      htruncated, ?_, hacc, ?_, hverify, rfl, rfl⟩
    · rw [hindex]
      exact hidentity
    · rw [hindex]
      exact hbinder
  · simp at h

/-! ### The whole rule -/

/-- What follows the identity list in an offer. -/
def binderList (data : Bytes) : Bytes :=
  match (Reader.mk data).vectorU16 with
  | .ok (_, reader) => reader.rest
  | .error _ => []

theorem binderList_eq {data : Bytes} {offer : PresharedKeyOffer}
    (h : PresharedKeyOffer.parse data = .ok offer) :
    binderList data = binderBytes offer.binders := by
  obtain ⟨rfl, hfits⟩ := PresharedKeyOffer.parse_iff.mp h
  have hlen := hfits.identities
  simp only [identityBytes, prefixed_length] at hlen
  have hread : (Reader.mk (identityBytes offer.identities ++ binderBytes offer.binders)).vectorU16
      = .ok (_, ⟨binderBytes offer.binders⟩) := Reader.vectorU16_iff.mpr ⟨rfl, by omega⟩
  rw [binderList, hread]

/-- `accept_psk` on a hello whose last extension is an offer: the loop, over the transcript cut
where the binder list begins. -/
theorem acceptPsk_eq_selectPsk (ring : Ring) (suite : CipherSuite) (hash : Hash)
    (htickets : config.tickets = some tickets) {body : Bytes} {hello : ClientHello}
    (hparse : ClientHello.parse body = .ok hello)
    (hearly : find hello.extensions ExtensionType.earlyData = none) {data : Bytes}
    (hlast : hello.extensions.getLast? = some ⟨ExtensionType.preSharedKey, data⟩)
    {offer : PresharedKeyOffer} (hoffer : PresharedKeyOffer.parse data = .ok offer)
    (hmode : offersDhe hello = true) (transcriptPrefix : Bytes) :
    ∃ before, Message.encode .clientHello body = before ++ binderList data ∧
      acceptPsk ring config hello (Message.encode .clientHello body) transcriptPrefix suite hash
        = selectPsk ring config tickets suite hash (hash.hash ring (transcriptPrefix ++ before))
            offer.binders 0 offer.identities := by
  obtain ⟨hbody, hfits⟩ := ClientHello.parse_iff.mp hparse
  obtain ⟨front, hfront⟩ := encode_clientHello_ends hlast
  rw [hbody]
  have hmem : (⟨ExtensionType.preSharedKey, data⟩ : Extension) ∈ hello.extensions :=
    List.mem_of_getLast? hlast
  have hfind : find hello.extensions ExtensionType.preSharedKey = some data :=
    find_eq_some hfits.extensions.nodup hmem
  obtain ⟨hdata, -⟩ := PresharedKeyOffer.parse_iff.mp hoffer
  have hcut : Message.encode .clientHello hello.encode
      = (front ++ identityBytes offer.identities) ++ binderBytes offer.binders := by
    rw [hfront, List.append_assoc, ← hdata]
  refine ⟨front ++ identityBytes offer.identities, ?_, ?_⟩
  · rw [hcut, binderList_eq hoffer]
  · rw [acceptPsk, refuse_neg _ (by simp [hearly]), ok_bind, hfind]
    simp only [hlast, Option.map_some]
    rw [refuse_neg _ (by simp), ok_bind, htickets]
    simp only [hmode, if_true]
    rw [takeOffer, hoffer, mapErr_ok, ok_bind, hcut, PresharedKeyOffer.truncated_append, mapErr_ok,
      ok_bind]

section Rule

variable {identities : List PskIdentity} {result : Except ServerError (Option AcceptedPsk)}

/-- A PSK is accepted exactly when the first acceptable identity's binder verifies. -/
theorem Selection.accepted_iff (hlen : identities.length < 2 ^ 16)
    (h : Selection ring config tickets suite hash covered binders 0 identities result)
    (accepted : AcceptedPsk) :
    result = .ok (some accepted) ↔
      ∃ index contents binder, FirstAcceptable ring config tickets suite identities index contents ∧
        binders[index]? = some binder ∧
        verifyPskBinder ring hash contents.psk covered binder = true ∧
        accepted.index.toNat = index ∧ accepted.psk = contents.psk ∧
        accepted.clientCertificates = contents.clientCertificates := by
  cases h with
  | @accepted index contents binder hfirst hbinder hverify =>
      rw [Nat.zero_add] at hbinder ⊢
      have hindex : (UInt16.ofNat index).toNat = index := by
        obtain ⟨offered, hoffered, -⟩ := hfirst.acceptable
        have hbound := (List.getElem?_eq_some_iff.mp hoffered).1
        simpa using Nat.mod_eq_of_lt (Nat.lt_trans hbound hlen)
      constructor
      · intro heq
        obtain rfl := Option.some.inj (Except.ok.inj heq)
        exact ⟨index, contents, binder, hfirst, hbinder, hverify, hindex, rfl, rfl⟩
      · intro h
        obtain ⟨index', contents', binder', hfirst', -, -, hindex', hpsk, hchain⟩ := h
        obtain ⟨rfl, rfl⟩ := hfirst.unique hfirst'
        obtain ⟨index'', psk, chain⟩ := accepted
        simp only at hindex' hpsk hchain
        rw [← hindex', hpsk, hchain]
        simp
  | @refused index contents binder hfirst hbinder hverify =>
      rw [Nat.zero_add] at hbinder
      constructor
      · intro heq
        simp at heq
      · intro h
        obtain ⟨index', contents', binder', hfirst', hbinder', hverify', -⟩ := h
        obtain ⟨rfl, rfl⟩ := hfirst.unique hfirst'
        rw [hbinder] at hbinder'
        obtain rfl := Option.some.inj hbinder'
        rw [hverify] at hverify'
        simp at hverify'
  | noneAcceptable hnone =>
      constructor
      · intro heq
        simp at heq
      · intro h
        obtain ⟨index, contents, binder, hfirst, -⟩ := h
        obtain ⟨offered, hoffered, hacc⟩ := hfirst.acceptable
        exact absurd hacc (hnone offered (List.mem_of_getElem? hoffered) contents)

/-- It is refused exactly when that binder does not verify. -/
theorem Selection.refused_iff
    (h : Selection ring config tickets suite hash covered binders 0 identities result) :
    result = .error .badBinder ↔
      ∃ index contents binder, FirstAcceptable ring config tickets suite identities index contents ∧
        binders[index]? = some binder ∧
        verifyPskBinder ring hash contents.psk covered binder = false := by
  cases h with
  | @accepted index contents binder hfirst hbinder hverify =>
      rw [Nat.zero_add] at hbinder
      constructor
      · intro heq
        simp at heq
      · intro h
        obtain ⟨index', contents', binder', hfirst', hbinder', hverify'⟩ := h
        obtain ⟨rfl, rfl⟩ := hfirst.unique hfirst'
        rw [hbinder] at hbinder'
        obtain rfl := Option.some.inj hbinder'
        rw [hverify] at hverify'
        simp at hverify'
  | @refused index contents binder hfirst hbinder hverify =>
      rw [Nat.zero_add] at hbinder
      exact ⟨fun _ => ⟨index, contents, binder, hfirst, hbinder, hverify⟩, fun _ => rfl⟩
  | noneAcceptable hnone =>
      constructor
      · intro heq
        simp at heq
      · intro h
        obtain ⟨index, contents, binder, hfirst, -⟩ := h
        obtain ⟨offered, hoffered, hacc⟩ := hfirst.acceptable
        exact absurd hacc (hnone offered (List.mem_of_getElem? hoffered) contents)

/-- There is no PSK exactly when no identity is acceptable. -/
theorem Selection.none_iff
    (h : Selection ring config tickets suite hash covered binders 0 identities result) :
    result = .ok none ↔ ∀ offered ∈ identities, ∀ contents,
      ¬ Acceptable ring config tickets suite offered contents := by
  cases h with
  | accepted hfirst hbinder hverify =>
      obtain ⟨offered, hoffered, hacc⟩ := hfirst.acceptable
      refine ⟨fun heq => by simp at heq, fun hnone => ?_⟩
      exact absurd hacc (hnone offered (List.mem_of_getElem? hoffered) _)
  | refused hfirst hbinder hverify =>
      obtain ⟨offered, hoffered, hacc⟩ := hfirst.acceptable
      refine ⟨fun heq => by simp at heq, fun hnone => ?_⟩
      exact absurd hacc (hnone offered (List.mem_of_getElem? hoffered) _)
  | noneAcceptable hnone => exact ⟨fun _ => hnone, fun _ => rfl⟩

end Rule

/-- A server with tickets resumes by the binder rule and by nothing else: the first acceptable
identity decides, its binder is checked over the transcript up to the hello's binder list, a
binder that does not verify is an error whatever follows, and without an acceptable identity
there is no resumption. -/
theorem acceptPsk_iff_firstAcceptable (ring : Ring) (config : ServerConfig) (tickets : Tickets)
    (htickets : config.tickets = some tickets) (body : Bytes) (hello : ClientHello)
    (hparse : ClientHello.parse body = .ok hello)
    (hearly : find hello.extensions ExtensionType.earlyData = none) (data : Bytes)
    (hlast : hello.extensions.getLast? = some ⟨ExtensionType.preSharedKey, data⟩)
    (offer : PresharedKeyOffer) (hoffer : PresharedKeyOffer.parse data = .ok offer)
    (hmode : offersDhe hello = true)
    (hdecode : ∀ offered ∈ offer.identities, Decodes ring tickets offered)
    (transcriptPrefix : Bytes) (suite : CipherSuite) (hash : Hash) :
    ∃ before, Message.encode .clientHello body = before ++ binderList data ∧
      (∀ accepted, acceptPsk ring config hello (Message.encode .clientHello body) transcriptPrefix
          suite hash = .ok (some accepted) ↔
        ∃ index contents binder,
          FirstAcceptable ring config tickets suite offer.identities index contents ∧
          offer.binders[index]? = some binder ∧
          verifyPskBinder ring hash contents.psk (hash.hash ring (transcriptPrefix ++ before)) binder
            = true ∧
          accepted.index.toNat = index ∧ accepted.psk = contents.psk ∧
          accepted.clientCertificates = contents.clientCertificates) ∧
      (acceptPsk ring config hello (Message.encode .clientHello body) transcriptPrefix suite hash
          = .error .badBinder ↔
        ∃ index contents binder,
          FirstAcceptable ring config tickets suite offer.identities index contents ∧
          offer.binders[index]? = some binder ∧
          verifyPskBinder ring hash contents.psk (hash.hash ring (transcriptPrefix ++ before)) binder
            = false) ∧
      (acceptPsk ring config hello (Message.encode .clientHello body) transcriptPrefix suite hash
          = .ok none ↔
        ∀ offered ∈ offer.identities, ∀ contents,
          ¬ Acceptable ring config tickets suite offered contents) := by
  obtain ⟨before, hbefore, haccept⟩ := acceptPsk_eq_selectPsk ring suite hash htickets hparse
    hearly hlast hoffer hmode transcriptPrefix
  obtain ⟨-, hfits⟩ := PresharedKeyOffer.parse_iff.mp hoffer
  have hcount : 0 + offer.identities.length ≤ offer.binders.length := by
    rw [hfits.length_eq, Nat.zero_add]
  have hselection := selectPsk_selection config suite hash
    (hash.hash ring (transcriptPrefix ++ before)) offer.identities 0 hdecode hcount
  rw [← haccept] at hselection
  exact ⟨before, hbefore, hselection.accepted_iff (identities_length_lt hoffer),
    hselection.refused_iff, hselection.none_iff⟩

/-- A ticket of the sample server. -/
def sampleTicket : Bytes :=
  match TicketContents.sealContents .sample
    { suite := .tlsAes128GcmSha256, issuedAt := 0, lifetime := 100, ageAdd := 0
      identity := TicketContents.identityOf .sample ServerConfig.sample.certificates
      clientCertificates := [], psk := [1] }
    Tickets.sample.keys.current (some (List.replicate 12 0)) with
  | .ok ticket => ticket
  | .error _ => []

/-- An offer of that ticket with a binder of zeroes. -/
def sampleOffer : PresharedKeyOffer := ⟨[⟨sampleTicket, 0⟩], [List.replicate 32 0]⟩

/-- The offer's data. -/
def sampleOfferData : Bytes := identityBytes sampleOffer.identities ++ binderBytes sampleOffer.binders

/-- A hello that makes the offer. -/
def sampleOffering : ClientHello :=
  ⟨List.replicate 32 0, [], [0x1301], [⟨ExtensionType.pskKeyExchangeModes, [1, 1]⟩,
    ⟨ExtensionType.preSharedKey, sampleOfferData⟩]⟩

/-- The sample server finds the offered ticket acceptable and its binder wrong. -/
theorem acceptPsk_iff_firstAcceptable_sample :
    ∃ before index contents binder,
      Message.encode .clientHello sampleOffering.encode = before ++ binderList sampleOfferData ∧
      FirstAcceptable .sample .sample .sample .tlsAes128GcmSha256 sampleOffer.identities index
        contents ∧
      sampleOffer.binders[index]? = some binder ∧
      verifyPskBinder .sample .sha256 contents.psk (Hash.sha256.hash .sample ([] ++ before)) binder
        = false := by
  have hdecode : ∀ offered ∈ sampleOffer.identities, Decodes .sample .sample offered := by
    intro offered hmem err hopen
    obtain rfl := List.mem_singleton.mp hmem
    have hopens : (TicketContents.openContents .sample sampleTicket Tickets.sample.keys).any
        (·.isOk) = true := by decide +kernel
    rw [hopen] at hopens
    simp [Except.isOk, Except.toBool] at hopens
  obtain ⟨before, hbefore, -, hbad, -⟩ := acceptPsk_iff_firstAcceptable .sample .sample .sample rfl
    sampleOffering.encode sampleOffering (by decide +kernel) (by decide +kernel) sampleOfferData
    (by decide +kernel) sampleOffer (by decide +kernel) (by decide +kernel) hdecode []
    .tlsAes128GcmSha256 .sha256
  obtain ⟨index, contents, binder, hfirst, hbinder, hverify⟩ := hbad.mp (by decide +kernel)
  exact ⟨before, index, contents, binder, hbefore, hfirst, hbinder, hverify⟩

end RustyTls.Server
