import RustyTls.TicketAge

/-!
# RustyTls.ChainIdentity

What the identity in a ticket identifies.

`identity_of` hashes a chain with each certificate behind its length, and nothing in front of the
chain says how many there are. The lengths alone keep two chains apart (`flatMap_prefixed_inj`):
a chain that goes on after another has ended has at least a length more, and two that both go on
agree on where the next certificate ends. What the hash adds is only whether it collides, which is
assumed of the chains in use and of no others: it has 32 octets, so it does collide somewhere.
-/

namespace RustyTls

open Core

/-- Strings behind their lengths, back to back, say where each ends and how many there are. -/
theorem flatMap_prefixed_inj {w : Nat} (hw : 0 < w) : ∀ {as bs : List Bytes},
    (∀ a ∈ as, a.length < 256 ^ w) → (∀ b ∈ bs, b.length < 256 ^ w) →
    as.flatMap (prefixed w) = bs.flatMap (prefixed w) → as = bs := by
  have hpos : ∀ (a : Bytes) (rest : List Bytes), (a :: rest).flatMap (prefixed w) ≠ [] := by
    intro a rest h
    have hlen := congrArg List.length h
    simp only [List.flatMap_cons, List.length_append, prefixed_length, List.length_nil] at hlen
    omega
  intro as
  induction as with
  | nil =>
      intro bs _ _ h
      cases bs with
      | nil => rfl
      | cons b bs => exact absurd h.symm (hpos b bs)
  | cons a as ih =>
      intro bs has hbs h
      cases bs with
      | nil => exact absurd h (hpos a as)
      | cons b bs =>
          obtain ⟨ha, hasTail⟩ := List.forall_mem_cons.mp has
          obtain ⟨hb, hbsTail⟩ := List.forall_mem_cons.mp hbs
          simp only [List.flatMap_cons] at h
          obtain ⟨rfl, hrest⟩ := prefixed_append_inj ha hb h
          rw [ih hasTail hbsTail hrest]

namespace TicketContents

/-- The certificates of a chain, each short enough for the length in front of it. -/
def Sized (chain : List Bytes) : Prop := ∀ certificate ∈ chain, certificate.length < 2 ^ 32

/-- SHA-256 does not collide on what is hashed of these chains. -/
def CollisionFree (ring : Ring) (chains : Set (List Bytes)) : Prop :=
  ∀ a ∈ chains, ∀ b ∈ chains,
    ring.digest .sha256 (identityInput a) = ring.digest .sha256 (identityInput b) →
      identityInput a = identityInput b

theorem identityInput_inj {a b : List Bytes} (ha : Sized a) (hb : Sized b)
    (h : identityInput a = identityInput b) : a = b :=
  flatMap_prefixed_inj (by decide : 0 < 4) ha hb h

theorem identityOf_inj {ring : Ring} {chains : Set (List Bytes)} (hfree : CollisionFree ring chains)
    {a b : List Bytes} (ha : Sized a) (hb : Sized b) (hmemA : a ∈ chains) (hmemB : b ∈ chains) :
    identityOf ring a = identityOf ring b ↔ a = b := by
  constructor
  · intro h
    exact identityInput_inj ha hb (hfree a hmemA b hmemB h)
  · intro h
    rw [h]

end TicketContents

namespace Server

open TicketContents

variable {ring : Ring} {entropy : Entropy} {config : ServerConfig} {tickets : Tickets}
  {negotiated : Negotiated} {ticket : Bytes}

/-- A ticket opens, under keys of which only its own opens it, to the identity of the chain it was
issued under. -/
theorem Issued.identity (lawful : ring.Lawful)
    (hissued : Issued ring entropy config tickets negotiated ticket)
    {keys : TicketKeys} (hmem : tickets.keys.current ∈ keys.current :: keys.previous)
    (honly : ∀ other ∈ keys.current :: keys.previous, other ≠ tickets.keys.current →
      (other.openTicket ring ticket).toOption = none)
    {contents : TicketContents} (hopens : openContents ring ticket keys = some (.ok contents)) :
    contents.identity = identityOf ring config.certificates := by
  obtain ⟨ageAdd, psk, hdecode⟩ := hissued.decodes lawful hmem honly hopens
  have hlen : (identityOf ring config.certificates).length < 2 ^ 8 := by
    rw [identityOf, Hash.hash, lawful.digest_length]
    decide
  exact (decode_encode_inv hlen hdecode).1

/-- What `identity_of` hashes is different for different chains, so for a hash that does not collide
on the chains in use the identity in a ticket is the current one exactly when it was issued under the
current chain. -/
theorem identityOf_separates :
    (∀ a b : List Bytes, Sized a → Sized b → a ≠ b → identityInput a ≠ identityInput b) ∧
    (∀ (ring : Ring) (chains : Set (List Bytes)), CollisionFree ring chains →
      (∀ chain ∈ chains, Sized chain) →
      (∀ a ∈ chains, ∀ b ∈ chains, identityOf ring a = identityOf ring b ↔ a = b) ∧
      ∀ (entropy : Entropy) (issuing current : ServerConfig) (tickets later : Tickets)
        (negotiated : Negotiated) (ticket : Bytes) (contents : TicketContents),
        ring.Lawful → Issued ring entropy issuing tickets negotiated ticket →
        tickets.keys.current ∈ later.keys.current :: later.keys.previous →
        (∀ other ∈ later.keys.current :: later.keys.previous, other ≠ tickets.keys.current →
          (other.openTicket ring ticket).toOption = none) →
        openContents ring ticket later.keys = some (.ok contents) →
        issuing.certificates ∈ chains → current.certificates ∈ chains →
        (contents.identity = identityOf ring current.certificates ↔
          issuing.certificates = current.certificates) ∧
        ∀ suite offered, usable ring current later suite offered contents = true →
          issuing.certificates = current.certificates) := by
  refine ⟨fun a b ha hb hne h => hne (identityInput_inj ha hb h), ?_⟩
  intro ring chains hfree hsized
  have hiff : ∀ a ∈ chains, ∀ b ∈ chains, identityOf ring a = identityOf ring b ↔ a = b :=
    fun a ha b hb => identityOf_inj hfree (hsized a ha) (hsized b hb) ha hb
  refine ⟨hiff, ?_⟩
  intro entropy issuing current tickets later negotiated ticket contents lawful hissued hmem honly
    hopens hissuing hcurrent
  have hidentity := hissued.identity lawful hmem honly hopens
  have hsame : contents.identity = identityOf ring current.certificates ↔
      issuing.certificates = current.certificates := by
    rw [hidentity]
    exact hiff _ hissuing _ hcurrent
  refine ⟨hsame, ?_⟩
  intro suite offered husable
  simp only [usable, Bool.and_eq_true, beq_iff_eq] at husable
  obtain ⟨⟨⟨_, hequal⟩, _⟩, _⟩ := husable
  exact hsame.mp hequal

/-- Two chains of the same octets, cut at different places: what is hashed differs, and a ticket
issued under the one opens to an identity that is its own and not the other's. -/
theorem identityOf_separates_shifted :
    let one : List Bytes := [[0x61, 0x62], [0x63]]
    let other : List Bytes := [[0x61], [0x62, 0x63]]
    let key : DirectionKey := ⟨.aes128Gcm, List.replicate 16 2, List.replicate 12 8, rfl, rfl⟩
    let negotiated : Negotiated :=
      ⟨.aes128Gcm, .sha256, .tlsAes128GcmSha256, ⟨.sha256, []⟩, [], ⟨key, .startingAt 0⟩, [], [],
        ⟨.sha256, [3]⟩, .finished, [], []⟩
    let issuing : ServerConfig := { ServerConfig.sample with certificates := one }
    identityInput one ≠ identityInput other ∧
      identityOf .sample one ≠ identityOf .sample other ∧
      ∃ ticket contents, Issued .sample (.sample 3) issuing .sample negotiated ticket ∧
        openContents .sample ticket Tickets.sample.keys = some (.ok contents) ∧
        contents.identity = identityOf .sample one ∧ contents.identity ≠ identityOf .sample other := by
  intro one other key negotiated issuing
  have hone : Sized one := by
    unfold Sized
    decide
  have hother : Sized other := by
    unfold Sized
    decide
  have hsized : ∀ chain ∈ ({one, other} : Set (List Bytes)), Sized chain := by
    intro chain hmem
    rcases hmem with rfl | rfl
    · exact hone
    · exact hother
  have hdiffer : Ring.sample.digest .sha256 (identityInput one)
      ≠ Ring.sample.digest .sha256 (identityInput other) := by decide +kernel
  have hfree : CollisionFree .sample {one, other} := by
    intro a ha b hb heq
    rcases ha with rfl | rfl <;> rcases hb with rfl | rfl
    · rfl
    · exact absurd heq hdiffer
    · exact absurd heq.symm hdiffer
    · rfl
  obtain ⟨ticket, hticket⟩ : ∃ ticket,
      (ticketContents .sample issuing .sample negotiated 7 [5]).sealContents .sample
        Tickets.sample.keys.current ((Entropy.sample 3).fill 3 nonceLen) = .ok ticket := ⟨_, rfl⟩
  obtain ⟨contents, hcontents⟩ : ∃ contents,
      openContents .sample ticket Tickets.sample.keys = some (.ok contents) := by
    obtain rfl := Except.ok.inj hticket
    exact ⟨ticketContents .sample issuing .sample negotiated 7 [5], by decide +kernel⟩
  have hissued : Issued .sample (.sample 3) issuing .sample negotiated ticket :=
    ⟨0, 7, [5], hticket⟩
  have honly : ∀ other ∈ Tickets.sample.keys.current :: Tickets.sample.keys.previous,
      other ≠ Tickets.sample.keys.current → (other.openTicket .sample ticket).toOption = none := by
    intro other hmem hne
    exact absurd (List.mem_singleton.mp hmem) hne
  have hne : one ≠ other := by decide
  obtain ⟨hsame, hticketIdentity⟩ := identityOf_separates.2 .sample {one, other} hfree hsized
  have hcurrent := fun (current : ServerConfig) (hmem : current.certificates ∈ ({one, other} : Set _)) =>
    hticketIdentity (.sample 3) issuing current .sample .sample negotiated ticket contents
      Ring.sample_lawful hissued (by decide) honly hcontents (.inl rfl) hmem
  refine ⟨identityOf_separates.1 one other hone hother hne, ?_, ticket, contents, hissued, hcontents,
    ?_, ?_⟩
  · rw [Ne, hsame one (.inl rfl) other (.inr rfl)]
    exact hne
  · exact (hcurrent issuing (.inl rfl)).1.mpr rfl
  · intro heq
    exact hne ((hcurrent { ServerConfig.sample with certificates := other } (.inr rfl)).1.mp heq)

end Server

end RustyTls
