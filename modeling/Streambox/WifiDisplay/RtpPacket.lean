import Mathlib.Data.List.GetD
import Streambox.Lib.LengthPrefix

/-! The parts of an RTP packet.

        | fixed header | CSRC list | header extension | payload | padding |
               12         4 * CC       4 + 4 * L                     P

    The first byte of the fixed header has the version, whether there is padding, whether there is an
    extension, and the number CC of the CSRCs. Bytes 2 and 3 of the extension are its length L in
    words, without the first one. The last byte of the packet is the length P of the padding.

    All three lengths come out of the packet itself, so a string of bytes is a packet in at most one
    way, and it is one as soon as the lengths leave room for each other. -/

namespace Streambox.WifiDisplay
open Streambox.Lib

namespace RtpFormat

abbrev Bytes := List UInt8

/-! ### The first byte -/

def version (d : Bytes) : Nat := (d.getD 0 0).toNat / 64

/-- P. -/
def padded (d : Bytes) : Prop := (d.getD 0 0).toNat / 32 % 2 = 1

/-- X. -/
def extended (d : Bytes) : Prop := (d.getD 0 0).toNat / 16 % 2 = 1

def csrcCount (d : Bytes) : Nat := (d.getD 0 0).toNat % 16

instance : DecidablePred padded := fun d =>
  inferInstanceAs (Decidable ((d.getD 0 0).toNat / 32 % 2 = 1))

instance : DecidablePred extended := fun d =>
  inferInstanceAs (Decidable ((d.getD 0 0).toNat / 16 % 2 = 1))

/-! ### The lengths that a string announces -/

/-- L, of an extension that begins at a place. -/
def extensionWords (d : Bytes) (i : Nat) : Nat := bigEndian [d.getD (i + 2) 0, d.getD (i + 3) 0]

/-- Where the CSRC list ends. -/
def csrcEnd (d : Bytes) : Nat := 12 + 4 * csrcCount d

/-- Where the payload begins. -/
def headerLength (d : Bytes) : Nat :=
  if extended d then csrcEnd d + (4 + 4 * extensionWords d (csrcEnd d)) else csrcEnd d

def paddingLength (d : Bytes) : Nat := if padded d then (d.getLastD 0).toNat else 0

end RtpFormat

open RtpFormat

/-- A packet; its parts have the lengths that it announces. -/
structure RtpPacket where
  fixed : Bytes
  csrcs : Bytes
  extension : Bytes
  payload : Bytes
  padding : Bytes
  fixed_length : fixed.length = 12
  csrcs_length : csrcs.length = 4 * csrcCount fixed
  extension_length : if extended fixed then extension.length = 4 + 4 * extensionWords extension 0
    else extension = []
  padding_length : if padded fixed then
      padding.length = ((fixed ++ csrcs ++ extension ++ payload ++ padding).getLastD 0).toNat
    else padding = []

namespace RtpPacket

def header (p : RtpPacket) : Bytes := p.fixed ++ p.csrcs ++ p.extension

/-- What is sent. -/
def bytes (p : RtpPacket) : Bytes := p.header ++ p.payload ++ p.padding

section parts
variable (p : RtpPacket)

/-- The first byte of a packet is that of its fixed header. -/
theorem bytes_getD_zero : p.bytes.getD 0 0 = p.fixed.getD 0 0 := by
  have hlen := p.fixed_length
  simp only [bytes, header, List.append_assoc]
  rw [List.getD_append _ _ _ _ (by omega)]

theorem extended_bytes : extended p.bytes ↔ extended p.fixed := by
  rw [extended, extended, p.bytes_getD_zero]

theorem padded_bytes : padded p.bytes ↔ padded p.fixed := by
  rw [padded, padded, p.bytes_getD_zero]

theorem csrcEnd_bytes : csrcEnd p.bytes = p.fixed.length + p.csrcs.length := by
  rw [csrcEnd, csrcCount, p.bytes_getD_zero, p.fixed_length, p.csrcs_length, csrcCount]

/-- An extension is found behind the CSRC list. -/
theorem extensionWords_bytes (h : 4 ≤ p.extension.length) :
    extensionWords p.bytes (csrcEnd p.bytes) = extensionWords p.extension 0 := by
  have hbyte : ∀ j < 4, p.bytes.getD (csrcEnd p.bytes + j) 0 = p.extension.getD (0 + j) 0 := by
    intro j hj
    rw [csrcEnd_bytes, bytes, header, List.append_assoc, List.append_assoc,
      List.getD_append_right _ _ _ _ (by simp), List.length_append, Nat.add_sub_cancel_left,
      List.getD_append _ _ _ _ (by omega), Nat.zero_add]
  rw [extensionWords, hbyte 2 (by omega), hbyte 3 (by omega), extensionWords]

theorem headerLength_bytes : headerLength p.bytes = p.header.length := by
  have hext := p.extension_length
  rw [headerLength, header, List.length_append, List.length_append]
  by_cases h : extended p.fixed
  · rw [if_pos h] at hext
    rw [if_pos (p.extended_bytes.mpr h), p.extensionWords_bytes (by omega), csrcEnd_bytes, hext]
  · rw [if_neg h] at hext
    rw [if_neg (mt p.extended_bytes.mp h), csrcEnd_bytes, hext, List.length_nil, Nat.add_zero]

theorem paddingLength_bytes : paddingLength p.bytes = p.padding.length := by
  have hpad := p.padding_length
  by_cases h : padded p.fixed
  · rw [if_pos h] at hpad
    rw [paddingLength, if_pos (p.padded_bytes.mpr h), hpad, bytes, header]
  · rw [if_neg h] at hpad
    rw [paddingLength, if_neg (mt p.padded_bytes.mp h), hpad, List.length_nil]

/-- The payload is what is between the header and the padding. -/
theorem payload_eq :
    (p.bytes.drop p.header.length).take p.payload.length = p.payload := by
  rw [bytes, List.append_assoc, List.drop_left, List.take_left]

end parts

/-- A string of bytes is a packet in at most one way. -/
theorem bytes_inj {p q : RtpPacket} (h : p.bytes = q.bytes) : p = q := by
  have hhead : p.header.length = q.header.length := by
    rw [← headerLength_bytes, ← headerLength_bytes, h]
  have hpad : p.padding.length = q.padding.length := by
    rw [← paddingLength_bytes, ← paddingLength_bytes, h]
  obtain ⟨hfront, hpadding⟩ := List.append_inj' h hpad
  obtain ⟨hheader, hpayload⟩ := List.append_inj hfront hhead
  have hfixed : p.fixed.length = q.fixed.length := by rw [p.fixed_length, q.fixed_length]
  simp only [header, List.append_assoc] at hheader
  obtain ⟨hfix, hrest⟩ := List.append_inj hheader hfixed
  have hcsrcs : p.csrcs.length = q.csrcs.length := by rw [p.csrcs_length, q.csrcs_length, hfix]
  obtain ⟨hcsrc, hext⟩ := List.append_inj hrest hcsrcs
  cases p
  cases q
  simp_all

/-- The lengths that a packet announces leave room for each other. -/
theorem fits (p : RtpPacket) : headerLength p.bytes + paddingLength p.bytes ≤ p.bytes.length := by
  rw [headerLength_bytes, paddingLength_bytes, bytes, List.length_append, List.length_append]
  omega

end RtpPacket

namespace RtpFormat
variable {d : Bytes}

theorem twelve_le_headerLength (d : Bytes) : 12 ≤ headerLength d := by
  rw [headerLength, csrcEnd]
  split <;> omega

theorem csrcEnd_le (d : Bytes) : csrcEnd d ≤ headerLength d := by
  rw [headerLength]
  split <;> omega

theorem getD_take {i n : Nat} (h : i < n) : (d.take n).getD i 0 = d.getD i 0 := by
  simp [List.getD_eq_getElem?_getD, h]

theorem getD_drop (d : Bytes) (i n : Nat) : (d.drop n).getD i 0 = d.getD (n + i) 0 := by
  simp [List.getD_eq_getElem?_getD]

/-- Where the lengths leave room for each other, the string is a packet. -/
theorem exists_packet (h : headerLength d + paddingLength d ≤ d.length) :
    ∃ p : RtpPacket, p.bytes = d := by
  have h12 := twelve_le_headerLength d
  have hcsrc := csrcEnd_le d
  have hfirst : (d.take 12).getD 0 0 = d.getD 0 0 := getD_take (by omega)
  -- cut it at the places that the lengths give
  have hcut : d.take 12 ++ (d.drop 12).take (csrcEnd d - 12)
      ++ (d.drop (csrcEnd d)).take (headerLength d - csrcEnd d)
      ++ (d.drop (headerLength d)).take (d.length - paddingLength d - headerLength d)
      ++ d.drop (d.length - paddingLength d) = d := by
    have hstep : ∀ i j, i ≤ j → d.take i ++ (d.drop i).take (j - i) = d.take j := by
      intro i j hij
      rw [← List.take_add, Nat.add_sub_cancel' hij]
    have h12csrc : 12 ≤ csrcEnd d := by rw [csrcEnd]; omega
    rw [hstep _ _ h12csrc, hstep _ _ hcsrc, hstep _ _ (by omega), List.take_append_drop]
  refine ⟨⟨_, _, _, _, _, ?_, ?_, ?_, ?_⟩, hcut⟩
  · rw [List.length_take]
    omega
  · rw [List.length_take, List.length_drop, csrcCount, hfirst, ← csrcCount]
    rw [csrcEnd] at hcsrc ⊢
    omega
  · simp only [extended, hfirst]
    split
    next hx =>
      have hlen : headerLength d = csrcEnd d + (4 + 4 * extensionWords d (csrcEnd d)) := if_pos hx
      have hwords : extensionWords ((d.drop (csrcEnd d)).take (headerLength d - csrcEnd d)) 0
          = extensionWords d (csrcEnd d) := by
        rw [extensionWords, getD_take (by omega), getD_take (by omega), getD_drop, getD_drop,
          extensionWords, Nat.zero_add, Nat.zero_add]
      rw [hwords, List.length_take, List.length_drop]
      omega
    next hx =>
      have hlen : headerLength d = csrcEnd d := if_neg hx
      rw [hlen, Nat.sub_self, List.take_zero]
  · rw [hcut]
    simp only [padded, hfirst]
    split
    next hp =>
      have hlen : paddingLength d = (d.getLastD 0).toNat := if_pos hp
      rw [List.length_drop, ← hlen]
      omega
    next hp =>
      have hlen : paddingLength d = 0 := if_neg hp
      rw [hlen, Nat.sub_zero, List.drop_length]

/-- The strings that are packets. -/
theorem exists_packet_iff :
    (∃ p : RtpPacket, p.bytes = d) ↔ headerLength d + paddingLength d ≤ d.length := by
  constructor
  · rintro ⟨p, rfl⟩
    exact p.fits
  · exact exists_packet

end RtpFormat

end Streambox.WifiDisplay
