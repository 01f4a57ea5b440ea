import RustyTls.ScheduleSound
import RustyTls.Wire

/-!
# RustyTls.Labels

What `hkdf_label` builds, and how its outputs are told apart.

`HkdfLabel` is the structure of RFC 8446 §7.1 and `HkdfLabel.parse` its reader. Two fields of
variable length stand behind one-octet lengths that are casts, so the octets say what went into
them only within the ranges of the casts: there they read back (`parse_hkdfLabel`), and so no two
derivations share them (`hkdfLabel_inj`).
-/

namespace RustyTls

open Core

/-! ### Strings -/

theorem byteArray_toList_loop (bytes : ByteArray) : ∀ (i : Nat) (front : Bytes),
    ByteArray.toList.loop bytes i front = front.reverse ++ bytes.data.toList.drop i := by
  intro i
  -- Downwards from the end: the loop takes one octet and moves the index up.
  induction hleft : bytes.size - i generalizing i with
  | zero =>
      intro front
      have hend : ¬ i < bytes.size := by omega
      have hsize : bytes.data.toList.length ≤ i := by
        rw [Array.length_toList]
        exact Nat.not_lt.mp hend
      rw [ByteArray.toList.loop, if_neg hend, List.drop_of_length_le hsize, List.append_nil]
  | succ left ih =>
      intro front
      have hlt : i < bytes.size := by omega
      have hlen : i < bytes.data.toList.length := by
        rw [Array.length_toList]
        exact hlt
      have hget : bytes.get! i = bytes.data.toList[i] := by
        rw [ByteArray.get!, Array.getElem_toList]
        exact getElem!_pos bytes.data i hlt
      rw [ByteArray.toList.loop, if_pos hlt, ih (i + 1) (by omega), List.drop_eq_getElem_cons hlen, hget]
      simp

theorem ascii_eq (text : String) : ascii text = text.toByteArray.data.toList := by
  rw [ascii, String.toUTF8_eq_toByteArray, ByteArray.toList, byteArray_toList_loop]
  rfl

theorem ascii_inj {a b : String} (h : ascii a = ascii b) : a = b := by
  rw [ascii_eq, ascii_eq, Array.toList_inj] at h
  exact String.toByteArray_inj.mp (ByteArray.ext h)

/-! ### The structure -/

/-- The `HkdfLabel` structure of RFC 8446 §7.1. -/
structure HkdfLabel where
  length : UInt16
  label : Bytes
  context : Bytes
  deriving Repr, DecidableEq

namespace HkdfLabel

def parse (input : Bytes) : Except WireError HkdfLabel := do
  let (length, reader) ← (Reader.mk input).u16
  let (label, reader) ← reader.vectorU8
  let (context, reader) ← reader.vectorU8
  reader.finish
  .ok { length, label, context }

/-- The bounds on its fields: `opaque label<7..255> = "tls13 " + Label` and
`opaque context<0..255>`. -/
structure Valid (parsed : HkdfLabel) : Prop where
  label_min : 7 ≤ parsed.label.length
  label_max : parsed.label.length ≤ 255
  tls13 : ascii "tls13 " <+: parsed.label
  context_max : parsed.context.length ≤ 255

end HkdfLabel

/-- What `hkdf_label` is called with. -/
structure LabelInput where
  length : Nat
  label : String
  context : Bytes
  deriving Repr, DecidableEq

namespace LabelInput

/-- The lengths fit the fields they are cast to. -/
structure InRange (input : LabelInput) : Prop where
  length : input.length < 2 ^ 16
  label : (ascii input.label).length ≤ 249
  context : input.context.length ≤ 255

/-- What the octets are to be read as. -/
def fields (input : LabelInput) : HkdfLabel where
  length := UInt16.ofNat input.length
  label := ascii "tls13 " ++ ascii input.label
  context := input.context

variable {input other : LabelInput}

theorem hkdfLabel_eq (input : LabelInput) : hkdfLabel input.length input.label input.context
    = beBytes 2 input.length ++
      (beBytes 1 input.fields.label.length ++ (input.fields.label ++
        (beBytes 1 input.fields.context.length ++ (input.fields.context ++ [])))) := by
  simp [hkdfLabel, fields]

theorem tls13_length : (ascii "tls13 ").length = 6 := by decide +kernel

theorem fields_label_length (input : LabelInput) :
    input.fields.label.length = 6 + (ascii input.label).length := by
  rw [fields, List.length_append, tls13_length]

/-- The octets read back as the fields they were made of. -/
theorem parse_hkdfLabel (h : input.InRange) :
    HkdfLabel.parse (hkdfLabel input.length input.label input.context) = .ok input.fields := by
  have hlabel : input.fields.label.length < 2 ^ 8 := by
    rw [fields_label_length]
    have := h.label
    omega
  have hcontext : input.fields.context.length < 2 ^ 8 := Nat.lt_succ_of_le h.context
  have hlength : input.length = (UInt16.ofNat input.length).toNat := by
    rw [UInt16.toNat_ofNat_of_lt' h.length]
  rw [HkdfLabel.parse, hkdfLabel_eq, hlength]
  simp only [Reader.u16_append, ok_bind, Reader.vectorU8_append hlabel,
    Reader.vectorU8_append hcontext, Reader.finish_nil]
  rfl

theorem fields_inj (h : input.InRange) (hother : other.InRange) (heq : input.fields = other.fields) :
    input = other := by
  obtain ⟨hlength, hlabel, hcontext⟩ := HkdfLabel.mk.inj heq
  have hnat := congrArg UInt16.toNat hlength
  rw [UInt16.toNat_ofNat_of_lt' h.length, UInt16.toNat_ofNat_of_lt' hother.length] at hnat
  have htext := ascii_inj (List.append_cancel_left hlabel)
  cases input
  cases other
  simp_all

/-- No two inputs in range give the same octets. -/
theorem hkdfLabel_inj (h : input.InRange) (hother : other.InRange)
    (heq : hkdfLabel input.length input.label input.context
      = hkdfLabel other.length other.label other.context) : input = other := by
  have hparse := parse_hkdfLabel h
  rw [heq, parse_hkdfLabel hother] at hparse
  exact fields_inj h hother (Except.ok.inj hparse.symm)

/-- With a label that is not empty, they are a valid structure. -/
theorem fields_valid (h : input.InRange) (hlabel : input.label ≠ "") : input.fields.Valid where
  label_min := by
    have hpos : 0 < (ascii input.label).length := by
      rw [List.length_pos_iff]
      intro hnil
      exact hlabel (ascii_inj (hnil.trans (by decide +kernel)))
    rw [fields_label_length]
    omega
  label_max := by
    rw [fields_label_length]
    have := h.label
    omega
  tls13 := List.prefix_append _ _
  context_max := h.context

end LabelInput

end RustyTls
