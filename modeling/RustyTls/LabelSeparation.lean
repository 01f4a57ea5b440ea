import RustyTls.ClientDerivations
import RustyTls.ServerDerivations

/-!
# RustyTls.LabelSeparation

The derivations of the protocol do not get in each other's way.

Within the ranges of its casts `hkdf_label` is injective and what it builds reads back, and every
call of it stays within them: the client's first flight, every run of either handshake from any
state, and every read on any connection. Of the structure in RFC 8446 it misses one bound, which no
call comes near: a label is at least one octet after `"tls13 "`, and an empty one is not refused.
-/

namespace RustyTls

open Core

/-- In range the three arguments can be read off the octets, with a label they are a structure of
RFC 8446, and every call is in range and has one. -/
theorem hkdfLabel_separates :
    (∀ (length length' : Nat) (label label' : String) (context context' : Bytes),
      LabelInput.InRange ⟨length, label, context⟩ → LabelInput.InRange ⟨length', label', context'⟩ →
      hkdfLabel length label context = hkdfLabel length' label' context' →
      length = length' ∧ label = label' ∧ context = context') ∧
    (∀ (length : Nat) (label : String) (context : Bytes),
      LabelInput.InRange ⟨length, label, context⟩ →
      ∃ parsed, HkdfLabel.parse (hkdfLabel length label context) = .ok parsed ∧
        parsed.length.toNat = length ∧ parsed.label = ascii "tls13 " ++ ascii label ∧
        parsed.context = context ∧ (label ≠ "" → parsed.Valid)) ∧
    ∀ ring : Ring, ring.Lawful →
      (∀ entropy config,
        Derives (Client.loggedStart ring entropy config).run (Client.start ring entropy config)) ∧
      (∀ config handshake inputs, Derives
        ((Client.endpoint ring config).loggedRun
          (fun entropy => Client.loggedHandleMessage ring entropy config) handshake inputs)
        ((Client.endpoint ring config).run handshake inputs)) ∧
      (∀ config handshake inputs, Derives
        ((Server.endpoint ring config).loggedRun
          (fun entropy => Server.loggedHandle ring entropy config) handshake inputs)
        ((Server.endpoint ring config).run handshake inputs)) ∧
      ∀ (connection : Connection) (records : List Bytes), Derives
        (Connection.loggedReads ring connection records)
        (records.foldl (fun connection record => (connection.read ring record).2) connection) := by
  refine ⟨?_, ?_, ?_⟩
  · intro length length' label label' context context' h h' heq
    exact LabelInput.mk.inj (LabelInput.hkdfLabel_inj h h' heq)
  · intro length label context h
    have hlength : (UInt16.ofNat length).toNat = length := UInt16.toNat_ofNat_of_lt' h.length
    have hparse := LabelInput.parse_hkdfLabel h
    exact ⟨_, hparse, hlength, rfl, rfl, LabelInput.fields_valid h⟩
  · intro ring lawful
    refine ⟨Client.start_makes lawful, ?_, ?_, ?_⟩
    · intro config handshake inputs
      exact Endpoint.run_makes
        (fun entropy state message => Client.handleMessage_makes lawful entropy config state message)
        inputs handshake
    · intro config handshake inputs
      exact Endpoint.run_makes
        (fun entropy state message => Server.handle_makes lawful entropy config state message)
        inputs handshake
    · intro connection records
      exact Connection.reads_makes ring records connection

/-- Two nonces, the longest a peer can send among them: the octets differ, and a connection that reads
a ticket with it derives the secret in range. -/
theorem hkdfLabel_separates_longest :
    let key : DirectionKey := ⟨.aes128Gcm, List.replicate 16 2, List.replicate 12 8, rfl, rfl⟩
    let connection : Connection :=
      ⟨.aes128Gcm, .sha256, .tlsAes128GcmSha256, ⟨key, .startingAt 0⟩, ⟨key, .startingAt 0⟩, [1], [1],
        [], false, [3]⟩
    let nonce : Bytes := List.replicate 255 7
    let ticket : Bytes := Message.encode .newSessionTicket
      (((((Writer.new.u32 100).u32 0).vectorU8 (.bytes nonce)).vectorU16 (.bytes [1])).vectorU16
        (fun w => w)).intoVec
    let record : Bytes :=
      ((connection.sealer.sealRecord .sample .handshake ticket 0).1.toOption).getD []
    (Connection.loggedReads .sample connection [record]).log = [⟨32, "resumption", nonce⟩] ∧
      (∀ made ∈ (Connection.loggedReads .sample connection [record]).log, made.Permitted) ∧
      hkdfLabel 32 "resumption" nonce ≠ hkdfLabel 32 "resumption" [7] ∧
      ∃ parsed, HkdfLabel.parse (hkdfLabel 32 "resumption" nonce) = .ok parsed ∧ parsed.Valid := by
  intro key connection nonce ticket record
  have hrange : LabelInput.InRange ⟨32, "resumption", nonce⟩ :=
    ⟨by decide, by decide +kernel, by decide +kernel⟩
  have hshort : LabelInput.InRange ⟨32, "resumption", [7]⟩ :=
    ⟨by decide, by decide +kernel, by decide⟩
  obtain ⟨hinj, hparse, hcalls⟩ := hkdfLabel_separates
  refine ⟨by decide +kernel, ?_, ?_, ?_⟩
  · exact ((hcalls .sample Ring.sample_lawful).2.2.2 connection [record]).calls
  · intro heq
    have hcontext := (hinj 32 32 "resumption" "resumption" nonce [7] hrange hshort heq).2.2
    exact absurd hcontext (by decide +kernel)
  · obtain ⟨parsed, hread, -, -, -, hvalid⟩ := hparse 32 "resumption" nonce hrange
    exact ⟨parsed, hread, hvalid (by decide)⟩

/-- A label that is empty: its field has 6 octets where the structure has at least 7. -/
theorem hkdfLabel_empty_label :
    ¬ (LabelInput.InRange ⟨32, "", []⟩ →
      ∃ parsed, HkdfLabel.parse (hkdfLabel 32 "" []) = .ok parsed ∧ parsed.Valid) := by
  intro h
  have hrange : LabelInput.InRange ⟨32, "", []⟩ := ⟨by decide, by decide +kernel, by decide⟩
  obtain ⟨parsed, hparse, hvalid⟩ := h hrange
  obtain rfl := Except.ok.inj ((LabelInput.parse_hkdfLabel hrange).symm.trans hparse)
  have hlen : (LabelInput.fields ⟨32, "", []⟩).label.length = 6 := by decide +kernel
  have := hvalid.label_min
  omega

end RustyTls
