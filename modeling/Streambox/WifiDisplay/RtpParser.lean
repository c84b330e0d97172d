import Mathlib.Data.UInt
import Streambox.Lib.Fallible
import Streambox.WifiDisplay.RtpPacket
import Streambox.WifiDisplay.RtpSink

/-! wifi-display, RTPSink.cpp: `RTPSink::parseRTP`.

    A datagram is its bytes, and a read behind the last one is an outcome of its own. A size is a
    `size_t` of any width from 32 bits on; the additions and subtractions are those of that type.
    `parseRTP` takes the padding off the size first and compares what is left with the header as it
    goes through it: that is, it goes on with the packets of `RtpPacket` and with nothing else.

    The regression over the arrival times, which only a log line reads, is left out. -/

namespace Streambox.WifiDisplay.RtpParser
open Streambox.Lib Streambox.WifiDisplay.RtpFormat
open Streambox.WifiDisplay.RtpSink (Source construct updateSeq)

/-- How a parse stops: it reads outside the datagram, or it returns the error. -/
inductive Stop where
  | outside
  | malformed
  | unsupported
  deriving DecidableEq, Repr

/-- What a session delivers. `readMore` reads at most 1500 bytes from a socket and has 16 bits for
    the length of an interleaved packet, so the size fits an `int`; in both cases it sets the arrival
    time, so the CHECK for it passes. -/
structure Datagram where
  data : Bytes
  arrivalTimeUs : Int64
  length_lt : data.length < 2 ^ 31

/-! ### Reads -/

/-- `data[i]`. -/
def fetch (d : Bytes) (i : Nat) : Except Stop UInt8 :=
  if i < d.length then .ok (d.getD i 0) else .error .outside

/-- `U16_AT`. -/
def u16At (d : Bytes) (i : Nat) : Except Stop UInt16 := do
  let b0 ← fetch d i
  let b1 ← fetch d (i + 1)
  return (b0.toUInt16 <<< 8) ||| b1.toUInt16

/-- `U32_AT`. -/
def u32At (d : Bytes) (i : Nat) : Except Stop UInt32 := do
  let b0 ← fetch d i
  let b1 ← fetch d (i + 1)
  let b2 ← fetch d (i + 2)
  let b3 ← fetch d (i + 3)
  return (b0.toUInt32 <<< 24) ||| (b1.toUInt32 <<< 16) ||| (b2.toUInt32 <<< 8) ||| b3.toUInt32

/-- `U64_AT`. -/
def u64At (d : Bytes) (i : Nat) : Except Stop UInt64 := do
  let high ← u32At d i
  let low ← u32At d (i + 4)
  return (high.toUInt64 <<< 32) ||| low.toUInt64

/-- `b0 << 8 | b1`, which is an `int`. -/
def beInt (b0 b1 : UInt8) : Nat := (b0.toNat <<< 8) ||| b1.toNat

/-! ### `parseRTP` -/

section parser
variable {w : Nat}

/-- The padding, if there is any, taken off the size. The header is at `data`. -/
def stripPadding (d : Bytes) (data : Nat) (size : BitVec w) : Except Stop (BitVec w) := do
  let flags ← fetch d data
  if flags &&& 0x20 ≠ 0 then
    let last ← fetch d (data + (size - 1#w).toNat)
    let paddingLength := BitVec.ofNat w last.toNat
    if paddingLength + 12#w > size then .error .malformed else return size - paddingLength
  else return size

/-- `dump_to_file`, which takes the length as an `int`; with the bytes that it writes. -/
def dumpToFile (d : Bytes) (data : Nat) (len : BitVec w) : Except Stop Bytes :=
  let len : BitVec w := (len.setWidth 32).signExtend w
  (List.range len.toNat).mapM fun k => fetch d (data + k)

/-- The dump of what is behind the fixed header, if it is enabled. -/
def dumpPacket (rtpDumpEnable : Bool) (d : Bytes) (size : BitVec w) : Except Stop Bytes :=
  if rtpDumpEnable then dumpToFile d 12 (size - 12#w) else .ok []

/-- The header extension, if there is one, behind the CSRC list. -/
def skipExtension (d : Bytes) (flags : UInt8) (size payloadOffset : BitVec w) :
    Except Stop (BitVec w) :=
  if flags &&& 0x10 ≠ 0 then
    if size < payloadOffset + 4#w then .error .malformed
    else do
      let b2 ← fetch d (payloadOffset.toNat + 2)
      let b3 ← fetch d (payloadOffset.toNat + 3)
      let extensionLength := BitVec.ofNat w (4 * beInt b2 b3)
      if size < payloadOffset + 4#w + extensionLength then .error .malformed
      else return payloadOffset + (4#w + extensionLength)
  else .ok payloadOffset

/-- The offset and the size of the payload: `parseRTP` up to the place where it reads the header's
    fields. -/
def payloadRange (w : Nat) (rtpDumpEnable : Bool) (d : Bytes) : Except Stop (BitVec w × BitVec w) :=
  let size := BitVec.ofNat w d.length
  if size < 12#w then .error .malformed
  else do
    let flags ← fetch d 0
    if flags >>> 6 ≠ 2 then .error .unsupported
    else do
      let size ← stripPadding d 0 size
      let _ ← dumpPacket rtpDumpEnable d size
      let numCSRCs := flags &&& 0x0f
      let payloadOffset := BitVec.ofNat w (12 + 4 * numCSRCs.toNat)
      if size < payloadOffset then .error .malformed
      else do
        let payloadOffset ← skipExtension d flags size payloadOffset
        return (payloadOffset, size - payloadOffset)

/-- The members of RTPSink that `parseRTP` uses. -/
structure Sink where
  rtpDumpEnable : Bool
  firstArrivalTimeUs : Int64
  numPacketsReceived : Int64
  renderer : Bool
  sources : UInt32 → Option Source

/-- The constructor. -/
def Sink.new (dumpEnable : Bool) : Sink := ⟨dumpEnable, -1, 0, false, fun _ => none⟩

/-- A buffer as a source gets it: its meta data, its range, and the number that `setInt32Data` puts
    on it when it is queued, if it is. -/
structure Handed (w : Nat) where
  ssrc : UInt32
  rtpTime : UInt32
  pt : UInt8
  m : UInt8
  offset : BitVec w
  length : BitVec w
  int32Data : Option UInt32

/-- The bytes of the buffer's range. It counts from the base, where the data of a datagram begin. -/
def Handed.range (h : Handed w) (d : Datagram) : Bytes :=
  (d.data.drop h.offset.toNat).take h.length.toNat

/-- A new source for the first packet of a sender, or the one that there is. -/
def handOn (source : Option Source) (seqNo : UInt16) : Source × Option UInt32 :=
  match source with
  | none => ((construct seqNo).1, some (construct seqNo).2)
  | some source => updateSeq source seqNo

/-- `parseRTP`. -/
def parseRTP (w : Nat) (s : Sink) (d : Datagram) : Except Stop (Sink × Handed w) := do
  let range ← payloadRange w s.rtpDumpEnable d.data
  let srcId ← u32At d.data 8
  let rtpTime ← u32At d.data 4
  let seqNo ← u16At d.data 2
  let b1 ← fetch d.data 1
  let handed := handOn (s.sources srcId) seqNo
  return ({ s with
      firstArrivalTimeUs :=
        if s.firstArrivalTimeUs < 0 then d.arrivalTimeUs else s.firstArrivalTimeUs
      numPacketsReceived := s.numPacketsReceived + 1
      renderer := s.renderer || (s.sources srcId).isNone
      sources := Function.update s.sources srcId (some handed.1) },
    ⟨srcId, rtpTime, b1 &&& 0x7f, b1 >>> 7, range.1, range.2, handed.2⟩)

end parser

/-! ### Reads inside the datagram -/

section ends
variable {d : Bytes} {i : Nat} {allowed : Stop → Prop}

theorem fetch_ends (h : i < d.length) : Ends (fetch d i) allowed fun b => b = d.getD i 0 := by
  rw [fetch, if_pos h]
  rfl

theorem u16At_ends (h : i + 2 ≤ d.length) : Ends (u16At d i) allowed fun _ => True :=
  (fetch_ends (by omega)).bind fun _ _ => (fetch_ends (by omega)).bind fun _ _ => trivial

theorem u32At_ends (h : i + 4 ≤ d.length) : Ends (u32At d i) allowed fun _ => True :=
  (fetch_ends (by omega)).bind fun _ _ => (fetch_ends (by omega)).bind fun _ _ =>
    (fetch_ends (by omega)).bind fun _ _ => (fetch_ends (by omega)).bind fun _ _ => trivial

theorem u64At_ends (h : i + 8 ≤ d.length) : Ends (u64At d i) allowed fun _ => True :=
  (u32At_ends (by omega)).bind fun _ _ => (u32At_ends (by omega)).bind fun _ _ => trivial

end ends

/-! ### The bits of the first byte, and `size_t` -/

theorem toNat_version (b : UInt8) : b >>> 6 = 2 ↔ b.toNat / 64 = 2 := by
  rw [← UInt8.toNat_inj, UInt8.toNat_shiftRight, Nat.shiftRight_eq_div_pow]
  rfl

theorem toNat_csrcs (b : UInt8) : (b &&& 0x0f).toNat = b.toNat % 16 := by
  rw [UInt8.toNat_and, show (0x0f : UInt8).toNat = 2 ^ 4 - 1 from rfl,
    Nat.and_two_pow_sub_one_eq_mod]

theorem toNat_flag (b mask : UInt8) (k : Nat) (hmask : mask.toNat = 2 ^ k) :
    b &&& mask ≠ 0 ↔ b.toNat / 2 ^ k % 2 = 1 := by
  rw [ne_eq, ← UInt8.toNat_inj, UInt8.toNat_and, hmask, Nat.and_two_pow,
    Nat.testBit_eq_decide_div_mod_eq]
  by_cases h : b.toNat / 2 ^ k % 2 = 1 <;> simp [h]

theorem beInt_eq (b0 b1 : UInt8) : beInt b0 b1 = bigEndian [b0, b1] := by
  have hb1 : b1.toNat < 2 ^ 8 := b1.toNat_lt
  rw [beInt, ← Nat.shiftLeft_add_eq_or_of_lt hb1, Nat.shiftLeft_eq]
  simp [bigEndian]
  omega

theorem beInt_lt (b0 b1 : UInt8) : beInt b0 b1 < 65536 := by
  have hb0 := b0.toNat_lt
  have hb1 := b1.toNat_lt
  rw [beInt_eq]
  simp [bigEndian]
  omega

section sizes
variable {w : Nat}

theorem two_pow_le (hw : 32 ≤ w) : 4294967296 ≤ 2 ^ w :=
  Nat.pow_le_pow_right (show 0 < 2 by decide) hw

/-- A number of 32 bits is a `size_t`. -/
theorem toNat_size (hw : 32 ≤ w) {n : Nat} (hn : n < 4294967296) :
    (BitVec.ofNat w n).toNat = n := by
  have hpow := two_pow_le hw
  rw [BitVec.toNat_ofNat, Nat.mod_eq_of_lt (by omega)]

/-- A sum of small sizes does not wrap around. -/
theorem toNat_size_add (hw : 32 ≤ w) {a b : BitVec w} (h : a.toNat + b.toNat < 4294967296) :
    (a + b).toNat = a.toNat + b.toNat := by
  have hpow := two_pow_le hw
  exact BitVec.toNat_add_of_lt (by omega)

theorem toNat_size_sub {a b : BitVec w} (h : b.toNat ≤ a.toNat) :
    (a - b).toNat = a.toNat - b.toNat :=
  BitVec.toNat_sub_of_le (BitVec.le_def.mpr h)

/-- A size that fits an `int` comes back from it. -/
theorem toNat_size_int (hw : 32 ≤ w) {a : BitVec w} (h : a.toNat < 2147483648) :
    (((a.setWidth 32).signExtend w : BitVec w)).toNat = a.toNat := by
  have hlow : (a.setWidth 32).toNat = a.toNat := by
    rw [BitVec.toNat_setWidth, Nat.mod_eq_of_lt (by omega)]
  have hmsb : (a.setWidth 32).msb = false := by
    rw [BitVec.msb_eq_false_iff_two_mul_lt, hlow]
    omega
  have hpow := two_pow_le hw
  rw [BitVec.signExtend_eq_setWidth_of_msb_false hmsb, BitVec.toNat_setWidth, hlow,
    Nat.mod_eq_of_lt (by omega)]

end sizes

/-! ### What the stages do -/

section stages
variable {w : Nat}

/-- The padding's length is read inside the datagram, and what is left of the size has room for a
    header. -/
theorem stripPadding_ends (hw : 32 ≤ w) (d : Bytes) (data : Nat) (size : BitVec w)
    (hpos : 0 < size.toNat) (hin : data + size.toNat ≤ d.length) :
    Ends (stripPadding d data size)
      (fun e => e = .malformed ∧ d.getD data 0 &&& 0x20 ≠ 0 ∧
        size.toNat < (d.getD (data + size.toNat - 1) 0).toNat + 12)
      fun s => s.toNat = size.toNat - (if d.getD data 0 &&& 0x20 ≠ 0 then
          (d.getD (data + size.toNat - 1) 0).toNat else 0) ∧
        (d.getD data 0 &&& 0x20 ≠ 0 →
          (d.getD (data + size.toNat - 1) 0).toNat + 12 ≤ size.toNat) := by
  have h1 : (1#w).toNat = 1 := toNat_size hw (by decide)
  have h12 : (12#w).toNat = 12 := toNat_size hw (by decide)
  have hlast : data + (size - 1#w).toNat = data + size.toNat - 1 := by
    rw [toNat_size_sub (by omega), h1]
    omega
  refine (fetch_ends (by omega)).bind fun flags hflags => ?_
  subst hflags
  refine Ends.ite (fun hp => ?_) fun hp => ?_
  · refine (fetch_ends (by omega)).bind fun last hl => ?_
    rw [hlast] at hl
    subst hl
    have hbyte := (d.getD (data + size.toNat - 1) 0).toNat_lt
    have hlen := toNat_size hw (n := (d.getD (data + size.toNat - 1) 0).toNat) (by omega)
    have hsum : (BitVec.ofNat w (d.getD (data + size.toNat - 1) 0).toNat + 12#w).toNat
        = (d.getD (data + size.toNat - 1) 0).toNat + 12 := by
      rw [toNat_size_add hw (by omega), hlen, h12]
    refine Ends.ite (fun hgt => ?_) fun hgt => ?_
    · rw [gt_iff_lt, BitVec.lt_def, hsum] at hgt
      exact ⟨rfl, hp, hgt⟩
    · rw [gt_iff_lt, BitVec.lt_def, hsum] at hgt
      refine ⟨?_, fun _ => by omega⟩
      rw [if_pos hp, toNat_size_sub (by omega), hlen]
  · exact ⟨by rw [if_neg hp, Nat.sub_zero], fun h => absurd h hp⟩

theorem dumpPacket_ends {allowed : Stop → Prop} (hw : 32 ≤ w) (rtpDumpEnable : Bool) {d : Bytes}
    {size : BitVec w} (h12 : 12 ≤ size.toNat) (hin : size.toNat ≤ d.length)
    (hlt : d.length < 2147483648) :
    Ends (dumpPacket rtpDumpEnable d size) allowed fun _ => True := by
  have htwelve : (12#w).toNat = 12 := toNat_size hw (by decide)
  have hlen : (size - 12#w).toNat = size.toNat - 12 := by
    rw [toNat_size_sub (by omega), htwelve]
  have hread : ∀ k ∈ List.range (((size - 12#w).setWidth 32).signExtend w : BitVec w).toNat,
      Ends (fetch d (12 + k)) allowed fun _ => True := by
    intro k hk
    rw [toNat_size_int hw (by omega), hlen, List.mem_range] at hk
    exact (fetch_ends (by omega)).mono (fun _ h => h) fun _ _ => trivial
  exact Ends.ite (fun _ => (Ends.mapM hread).mono (fun _ h => h) fun _ _ => trivial)
    fun _ => trivial

/-- An extension is skipped if it fits. -/
theorem skipExtension_ends (hw : 32 ≤ w) (d : Bytes) (flags : UInt8) (size payloadOffset : BitVec w)
    (hin : size.toNat ≤ d.length) (hlt : d.length < 2147483648)
    (hoff : payloadOffset.toNat ≤ size.toNat) :
    Ends (skipExtension d flags size payloadOffset)
      (fun e => e = .malformed ∧ flags &&& 0x10 ≠ 0 ∧
        size.toNat < payloadOffset.toNat + (4 + 4 * extensionWords d payloadOffset.toNat))
      fun o => o.toNat = (if flags &&& 0x10 ≠ 0 then
          payloadOffset.toNat + (4 + 4 * extensionWords d payloadOffset.toNat)
          else payloadOffset.toNat) ∧
        o.toNat ≤ size.toNat := by
  have h4 : (4#w).toNat = 4 := toNat_size hw (by decide)
  have hfour : (payloadOffset + 4#w).toNat = payloadOffset.toNat + 4 := by
    rw [toNat_size_add hw (by omega), h4]
  refine Ends.ite (fun hx => Ends.ite (fun hshort => ?_) fun hshort => ?_) fun hx => ?_
  · rw [BitVec.lt_def, hfour] at hshort
    exact ⟨rfl, hx, by omega⟩
  · rw [BitVec.lt_def, hfour] at hshort
    refine (fetch_ends (by omega)).bind fun b2 h2 => (fetch_ends (by omega)).bind fun b3 h3 => ?_
    have hwords : beInt b2 b3 = extensionWords d payloadOffset.toNat := by
      rw [beInt_eq, h2, h3, extensionWords]
    have hbound := beInt_lt b2 b3
    rw [hwords] at hbound ⊢
    have hext := toNat_size hw (n := 4 * extensionWords d payloadOffset.toNat) (by omega)
    refine Ends.ite (fun hlong => ?_) fun hlong => ?_
    · rw [BitVec.lt_def, toNat_size_add hw (by omega), hfour, hext] at hlong
      exact ⟨rfl, hx, by omega⟩
    · rw [BitVec.lt_def, toNat_size_add hw (by omega), hfour, hext] at hlong
      have hnew : (payloadOffset + (4#w + BitVec.ofNat w (4 * extensionWords d payloadOffset.toNat)
          )).toNat = payloadOffset.toNat + (4 + 4 * extensionWords d payloadOffset.toNat) := by
        rw [toNat_size_add hw, toNat_size_add hw (by omega), h4, hext]
        rw [toNat_size_add hw (by omega), h4, hext]
        omega
      exact ⟨by rw [if_pos hx, hnew], by rw [hnew]; omega⟩
  · exact ⟨by rw [if_neg hx], hoff⟩

end stages

/-! ### What is handed on -/

/-- The version is 2 and the lengths leave room for each other. -/
def Accepts (d : Bytes) : Prop := version d = 2 ∧ headerLength d + paddingLength d ≤ d.length

/-- The errors of a parse that never reads outside, and refuses no packet. -/
def Refuses (d : Bytes) (e : Stop) : Prop := e ≠ .outside ∧ ¬ Accepts d

section range
variable {w : Nat} {d : Bytes}

theorem refuses_malformed (h : d.length < headerLength d + paddingLength d) :
    Refuses d .malformed :=
  ⟨by decide, fun haccepts => absurd haccepts.2 (Nat.not_le.mpr h)⟩

/-- The last byte, where the parser reads it. -/
theorem paddingLength_eq (d : Bytes) : paddingLength d =
    if d.getD 0 0 &&& 0x20 ≠ 0 then (d.getD (0 + d.length - 1) 0).toNat else 0 := by
  have hflag : d.getD 0 0 &&& 0x20 ≠ 0 ↔ padded d := toNat_flag _ _ 5 rfl
  rw [paddingLength, if_congr hflag rfl rfl, Nat.zero_add, List.getLastD_eq_getLast?,
    List.getLast?_eq_getElem?, List.getD_eq_getElem?_getD]

theorem headerLength_eq (d : Bytes) : headerLength d =
    if d.getD 0 0 &&& 0x10 ≠ 0 then csrcEnd d + (4 + 4 * extensionWords d (csrcEnd d))
    else csrcEnd d :=
  have hflag : d.getD 0 0 &&& 0x10 ≠ 0 ↔ extended d := toNat_flag _ _ 4 rfl
  (if_congr hflag rfl rfl).symm

/-- The range is that of the payload, if there is one. -/
theorem payloadRange_ends (hw : 32 ≤ w) (hlt : d.length < 2147483648) (rtpDumpEnable : Bool) :
    Ends (payloadRange w rtpDumpEnable d) (Refuses d) fun r => Accepts d ∧
      r.1.toNat = headerLength d ∧
      r.2.toNat = d.length - paddingLength d - headerLength d := by
  have h12 := twelve_le_headerLength d
  have hcsrc := csrcEnd_le d
  have hsize : (BitVec.ofNat w d.length).toNat = d.length := toNat_size hw (by omega)
  have htwelve : (12#w).toNat = 12 := toNat_size hw (by decide)
  have hoffset : (BitVec.ofNat w (12 + 4 * (d.getD 0 0 &&& 0x0f).toNat)).toNat = csrcEnd d := by
    have hmod := Nat.mod_lt (d.getD 0 0).toNat (show 0 < 16 by decide)
    rw [toNat_csrcs, toNat_size hw (by omega), csrcEnd, csrcCount]
  refine Ends.ite (fun hshort => ?_) fun hshort => ?_
  · rw [BitVec.lt_def, hsize, htwelve] at hshort
    exact refuses_malformed (by omega)
  rw [BitVec.lt_def, hsize, htwelve] at hshort
  refine (fetch_ends (by omega)).bind fun flags hflags => ?_
  subst hflags
  refine Ends.ite (fun hv => ?_) fun hv => ?_
  · exact ⟨by decide, fun h => hv ((toNat_version _).mpr h.1)⟩
  have hversion : version d = 2 := (toNat_version _).mp (not_not.mp hv)
  have hstrip := stripPadding_ends hw d 0 (BitVec.ofNat w d.length) (by omega) (by omega)
  rw [hsize, ← paddingLength_eq] at hstrip
  refine (hstrip.mono ?_ fun _ h => h).bind fun size hleft => ?_
  · -- the padding alone leaves no room
    rintro e ⟨rfl, hp, hlast⟩
    have hpad := paddingLength_eq d
    rw [if_pos hp] at hpad
    exact refuses_malformed (by omega)
  obtain ⟨hleft, hroom⟩ := hleft
  have hpad : paddingLength d + 12 ≤ d.length := by
    rw [paddingLength_eq]
    split
    next hp => exact hroom hp
    next => omega
  refine (dumpPacket_ends hw rtpDumpEnable (by omega) (by omega) hlt).bind fun _ _ => ?_
  refine Ends.ite (fun hcut => ?_) fun hcut => ?_
  · rw [BitVec.lt_def, hoffset] at hcut
    exact refuses_malformed (by omega)
  rw [BitVec.lt_def, hoffset] at hcut
  have hskip := skipExtension_ends hw d (d.getD 0 0) size
    (BitVec.ofNat w (12 + 4 * (d.getD 0 0 &&& 0x0f).toNat)) (by omega) hlt (by omega)
  rw [hoffset, ← headerLength_eq] at hskip
  refine (hskip.mono ?_ fun _ h => h).bind fun payloadOffset hend => ?_
  · -- the extension ends behind what is left
    rintro e ⟨rfl, hx, hlong⟩
    have hhead := headerLength_eq d
    rw [if_pos hx] at hhead
    exact refuses_malformed (by omega)
  obtain ⟨hend, hfits⟩ := hend
  refine ⟨⟨hversion, by omega⟩, hend, ?_⟩
  rw [toNat_size_sub (by omega), hleft, hend]

/-- `parseRTP` hands a buffer on with the range of its payload, or there is none. -/
theorem parseRTP_ends (hw : 32 ≤ w) (s : Sink) (d : Datagram) :
    Ends (parseRTP w s d) (Refuses d.data) fun r => Accepts d.data ∧
      r.2.offset.toNat = headerLength d.data ∧
      r.2.length.toNat = d.data.length - paddingLength d.data - headerLength d.data := by
  have hlt : d.data.length < 2147483648 := d.length_lt
  refine (payloadRange_ends hw hlt s.rtpDumpEnable).bind fun range h => ?_
  have h12 := twelve_le_headerLength d.data
  have hfits := h.1.2
  refine (u32At_ends (by omega)).bind fun srcId _ => ?_
  refine (u32At_ends (by omega)).bind fun rtpTime _ => ?_
  refine (u16At_ends (by omega)).bind fun seqNo _ => ?_
  exact (fetch_ends (by omega)).bind fun b1 _ => h

end range

/-! ### Packets and nothing else -/

section packets
variable {w : Nat} {s : Sink} {d : Datagram}

theorem accepts_iff (d : Bytes) :
    Accepts d ↔ ∃ p : RtpPacket, version p.fixed = 2 ∧ p.bytes = d := by
  constructor
  · rintro ⟨hversion, hfits⟩
    obtain ⟨p, rfl⟩ := exists_packet hfits
    exact ⟨p, by rwa [version, ← p.bytes_getD_zero], rfl⟩
  · rintro ⟨p, hversion, rfl⟩
    exact ⟨by rwa [version, p.bytes_getD_zero], p.fits⟩

theorem parseRTP_ok_iff (hw : 32 ≤ w) :
    (∃ r, parseRTP w s d = .ok r) ↔ ∃ p : RtpPacket, version p.fixed = 2 ∧ p.bytes = d.data := by
  rw [← accepts_iff]
  have hends := parseRTP_ends hw s d
  constructor
  · rintro ⟨r, hr⟩
    exact (hends.of_eq_ok hr).1
  · intro haccepts
    cases hr : parseRTP w s d with
    | ok r => exact ⟨r, rfl⟩
    | error e =>
      rw [hr] at hends
      exact absurd haccepts hends.2

/-- The range of the buffer is the payload of the packet. -/
theorem parseRTP_payload (hw : 32 ≤ w) {s' : Sink} {h : Handed w}
    (hr : parseRTP w s d = .ok (s', h)) {p : RtpPacket} (hp : p.bytes = d.data) :
    h.offset.toNat = p.header.length ∧ h.length.toNat = p.payload.length ∧
      h.range d = p.payload := by
  obtain ⟨-, hoffset, hlength⟩ := (parseRTP_ends hw s d).of_eq_ok hr
  have htotal : p.bytes.length = p.header.length + p.payload.length + p.padding.length := by
    rw [RtpPacket.bytes, List.length_append, List.length_append]
  rw [← hp, p.headerLength_bytes] at hoffset hlength
  rw [p.paddingLength_bytes, htotal] at hlength
  have hpayload : h.length.toNat = p.payload.length := by
    rw [hlength]
    omega
  refine ⟨hoffset, hpayload, ?_⟩
  rw [Handed.range, hoffset, hpayload, ← hp, p.payload_eq]

end packets

end Streambox.WifiDisplay.RtpParser
