import RustyTls.PostHandshake

/-!
# RustyTls.Symbolic

The key schedule as terms.

In `Term` the extraction, the labelled expansion and the hash are constructors, so that two
secrets are the same exactly if they were derived the same way. `Term.eval` computes the octets
a term stands for, with the functions of the source. A `Derivation` is what one end's sending
keys are derived from in the course of a connection: `generation 0` is the handshake traffic
secret, `generation 1` the application traffic secret, and every update makes the next. No
generation comes back (`generation_injective`).
-/

namespace RustyTls

open Core

/-- How a secret was derived. -/
inductive Term
  | octets (bytes : Bytes)
  | digest (hash : Hash) (message : Bytes)
  | extract (hash : Hash) (salt ikm : Term)
  | expandLabel (hash : Hash) (secret : Term) (label : String) (context : Term) (length : Nat)
  deriving Repr, DecidableEq

namespace Term

/-- The octets of a secret. -/
def eval (ring : Ring) : Term → Bytes
  | .octets bytes => bytes
  | .digest hash message => hash.hash ring message
  | .extract hash salt ikm => hkdfExtract ring hash (salt.eval ring) (ikm.eval ring)
  | .expandLabel hash secret label context length =>
      RustyTls.expandLabel ring hash (secret.eval ring) label (context.eval ring) length

/-- Derive-Secret over the hash of a transcript. -/
def derive (hash : Hash) (secret : Term) (label : String) (transcript : Bytes) : Term :=
  .expandLabel hash secret label (.digest hash transcript) hash.len

/-- The next traffic secret. -/
def update (hash : Hash) (secret : Term) : Term :=
  .expandLabel hash secret "traffic upd" (.octets []) hash.len

/-- The traffic key of a secret. -/
def key (hash : Hash) (secret : Term) (keyLen : Nat) : Term :=
  .expandLabel hash secret "key" (.octets []) keyLen

/-- How many updates a secret is away from one that is not an update. -/
def updates : Term → Nat
  | .expandLabel _ secret label _ _ => if label = "traffic upd" then secret.updates + 1 else 0
  | _ => 0

theorem updates_iterate (hash : Hash) (secret : Term) (n : Nat) :
    ((update hash)^[n] secret).updates = secret.updates + n := by
  induction n with
  | zero => rfl
  | succ n ih =>
      rw [Function.iterate_succ_apply', update, updates, if_pos rfl, ih]
      rfl

end Term

/-! ### The sending keys of one end -/

/-- Which end a connection is. -/
inductive Role
  | client
  | server
  deriving Repr, DecidableEq

namespace Role

/-- The label of the handshake traffic secret an end sends under. -/
def handshakeLabel : Role → String
  | .client => "c hs traffic"
  | .server => "s hs traffic"

/-- The label of the application traffic secret an end sends under. -/
def applicationLabel : Role → String
  | .client => "c ap traffic"
  | .server => "s ap traffic"

end Role

/-- What the sending keys of one end are derived from: the pre-shared key or the zeroes in its
place, the shared secret, and the transcripts at the two derivations. -/
structure Derivation where
  role : Role
  aead : Aead
  hash : Hash
  psk : Bytes
  sharedSecret : Bytes
  hellos : Bytes
  finished : Bytes
  deriving Repr, DecidableEq

namespace Derivation

variable (derivation : Derivation)

def early : Term :=
  .extract derivation.hash (.octets (List.replicate derivation.hash.len 0)) (.octets derivation.psk)

def handshake : Term :=
  .extract derivation.hash (.derive derivation.hash derivation.early "derived" [])
    (.octets derivation.sharedSecret)

def master : Term :=
  .extract derivation.hash (.derive derivation.hash derivation.handshake "derived" [])
    (.octets (List.replicate derivation.hash.len 0))

/-- The secrets an end sends under, in order. -/
def generation : Nat → Term
  | 0 => .derive derivation.hash derivation.handshake derivation.role.handshakeLabel
      derivation.hellos
  | n + 1 => (Term.update derivation.hash)^[n]
      (.derive derivation.hash derivation.master derivation.role.applicationLabel
        derivation.finished)

/-- The keys it seals with. -/
def sealKey (n : Nat) : Term :=
  .key derivation.hash (derivation.generation n) derivation.aead.keyLen

theorem generation_updates (n : Nat) : (derivation.generation (n + 1)).updates = n := by
  have hbase : (Term.derive derivation.hash derivation.master derivation.role.applicationLabel
      derivation.finished).updates = 0 := by
    cases hrole : derivation.role <;> simp [Term.derive, Term.updates, Role.applicationLabel]
  rw [generation, Term.updates_iterate, hbase, Nat.zero_add]

/-- The handshake secret is not an application secret: their labels differ. -/
theorem generation_zero_ne (n : Nat) : derivation.generation 0 ≠ derivation.generation (n + 1) := by
  intro heq
  have hzero : (derivation.generation 0).updates = 0 := by
    cases hrole : derivation.role <;>
      simp [generation, Term.derive, Term.updates, Role.handshakeLabel, hrole]
  obtain rfl : n = 0 := by
    rw [← derivation.generation_updates n, ← heq, hzero]
  simp only [generation, Function.iterate_zero, id_eq, Term.derive, Term.expandLabel.injEq] at heq
  obtain ⟨-, -, hlabel, -⟩ := heq
  cases hrole : derivation.role <;>
    simp [hrole, Role.handshakeLabel, Role.applicationLabel] at hlabel

/-- No generation comes back. -/
theorem generation_injective : Function.Injective derivation.generation := by
  intro m n heq
  cases m with
  | zero =>
      cases n with
      | zero => rfl
      | succ n => exact absurd heq (derivation.generation_zero_ne n)
  | succ m =>
      cases n with
      | zero => exact absurd heq.symm (derivation.generation_zero_ne m)
      | succ n =>
          have hupdates := congrArg Term.updates heq
          rw [generation_updates, generation_updates] at hupdates
          rw [hupdates]

/-- Neither does a key. -/
theorem sealKey_injective : Function.Injective derivation.sealKey := by
  intro m n heq
  simp only [sealKey, Term.key, Term.expandLabel.injEq] at heq
  exact derivation.generation_injective heq.2.1

section Eval

variable {ring : Ring} (lawful : ring.Lawful)

/-- The direction on its `n`-th secret, at a number. -/
def direction (n : Nat) (seq : Sequence) : Direction where
  aead := derivation.aead
  hash := derivation.hash
  secret := (derivation.generation n).eval ring
  sealer := ⟨directionKey lawful derivation.hash ((derivation.generation n).eval ring)
    derivation.aead, seq⟩

theorem generation_succ_eval (n : Nat) :
    (derivation.generation (n + 2)).eval ring
      = updateTrafficSecret ring derivation.hash ((derivation.generation (n + 1)).eval ring) := by
  rw [generation, generation, Function.iterate_succ_apply', Term.update, Term.eval]
  rfl

/-- An update leads to the next generation. -/
theorem direction_next (n : Nat) (seq : Sequence) :
    (derivation.direction lawful (n + 1) seq).next lawful
      = derivation.direction lawful (n + 2) (.startingAt 0) := by
  simp only [direction, Direction.next, generation_succ_eval]

end Eval

end Derivation

end RustyTls
