import Streambox.Flac.Subframe
import Streambox.Lib.Crc

/-! The header of a frame.

        sync code │ block │ rate │ channels │ size │ 0 │ number │ block, rate │ CRC
            16    │   4   │  4   │    4     │  3   │ 1 │  8 …   │   where the │  8
                                                                  codes say

    The number of the frame is coded like a character, in one byte to seven. The CRC goes over
    everything from the sync code on, and leaves nothing when it goes over itself too. -/

namespace Streambox.Flac
open Streambox.Lib.BitField Streambox.Lib

/-! ### crc.c -/

/-- One shift of the loop in av_crc_init; the register is at the high end of 32 bits. -/
def crcShift (bits : Nat) (poly c : BitVec 32) : BitVec 32 :=
  c <<< 1 ^^^ (poly <<< (32 - bits) &&& c.sshiftRight 31)

def bswap32 (c : BitVec 32) : BitVec 32 :=
  c.extractLsb' 0 8 ++ c.extractLsb' 8 8 ++ c.extractLsb' 16 8 ++ c.extractLsb' 24 8

/-- An entry of the table, with `le` being 0. -/
def avCrcInit (bits : Nat) (poly : BitVec 32) (i : Nat) : BitVec 32 :=
  bswap32 ((crcShift bits poly)^[8] (BitVec.ofNat 32 i <<< 24))

/-- AV_CRC_8_ATM. -/
def crc8Atm : Nat → BitVec 32 := avCrcInit 8 0x07

/-- The table has 257 entries, so there is the loop over the bytes only. -/
def avCrc (ctx : Nat → BitVec 32) (crc : BitVec 32) : List UInt8 → BitVec 32
  | [] => crc
  | byte :: buffer =>
    avCrc ctx (ctx (crc.toNat % 256 ^^^ byte.toNat) ^^^ crc >>> 8) buffer

/-! ### The header -/

structure FLACFrameInfo where
  samplerate : Nat
  channels : Nat
  bps : Nat
  blocksize : Int
  chMode : Nat
  deriving DecidableEq, Repr

def sampleSizeTable : List Nat := [0, 8, 12, 0, 16, 20, 24, 0]

def ffFlacSampleRateTable : List Nat :=
  [0, 88200, 176400, 192000, 8000, 16000, 22050, 24000, 32000, 44100, 48000, 96000, 0, 0, 0, 0]

/-- `const int16_t`; the last one is too large for that. -/
def ffFlacBlocksizeTable : List Int :=
  ([0, 192, 576 <<< 0, 576 <<< 1, 576 <<< 2, 576 <<< 3, 0, 0, 256 <<< 0, 256 <<< 1, 256 <<< 2,
    256 <<< 3, 256 <<< 4, 256 <<< 5, 256 <<< 6, 256 <<< 7] : List Nat).map
      fun v => (v : Int).bmod (2 ^ 16)

/-- The loop of GET_UTF8. -/
def utf8Rest : Nat → Int → Decode Int
  | 0, val => pure val
  | n + 1, val => do
    let byte ← getBits 8
    let tmp : Int := byte - 128
    if tmp >>> (6 : Nat) ≠ 0 then pure (-1) else utf8Rest n (val * 2 ^ 6 + tmp)

def getUtf8 : Decode Int := do
  let val ← getBits 8
  let ones := 7 - avLog2 (val ^^^ 255)
  if ones = 1 then pure (-1) else utf8Rest (ones - 1) (val &&& 127 >>> ones : Nat)

def readBlocksize (bsCode : Nat) : Decode Int :=
  if bsCode = 6 then do
    let v ← getBits 8
    pure (v + 1)
  else if bsCode = 7 then do
    let v ← getBits 16
    pure (v + 1)
  else pure (ffFlacBlocksizeTable.getD bsCode 0)

def readSamplerate (s : FLACContext) (srCode : Nat) : Decode Nat :=
  if srCode < 12 then pure (ffFlacSampleRateTable.getD srCode 0)
  else if srCode = 12 then do
    let v ← getBits 8
    pure (v * 1000)
  else if srCode = 13 then getBits 16
  else if srCode = 14 then do
    let v ← getBits 16
    pure (v * 10)
  else throw (.error s)

/-- The bytes of the buffer up to where the reader is. -/
def crcBefore : Decode (BitVec 32) := fun mem index =>
  .ok (avCrc crc8Atm 0 ((List.range (index / 8)).map mem), index)

/-- What is read before the CRC. -/
def readHeader (s : FLACContext) : Decode FLACFrameInfo := do
  let sync ← getBits 15
  failIf (sync &&& 0x7FFF ≠ 0x7FFC) s
  skipBits 1
  let bsCode ← getBits 4
  let srCode ← getBits 4
  let chMode ← getBits 4
  failIf (flacChmodeMidSide < chMode) s
  let bpsCode ← getBits 3
  failIf (bpsCode = 3 ∨ bpsCode = 7) s
  let reserved ← getBits1
  failIf (reserved ≠ 0) s
  let number ← getUtf8
  failIf (number < 0) s
  failIf (bsCode = 0) s
  let blocksize ← readBlocksize bsCode
  let samplerate ← readSamplerate s srCode
  pure {
    samplerate, blocksize
    channels := if chMode < 8 then chMode + 1 else 2
    chMode := if chMode < 8 then flacChmodeIndependent else chMode
    bps := sampleSizeTable.getD bpsCode 0 }

/-- `s` is only what an error leaves. -/
def decodeFrameHeader (s : FLACContext) : Decode FLACFrameInfo := do
  let fi ← readHeader s
  skipBits 8
  let crc ← crcBefore
  failIf (crc ≠ 0) s
  pure fi

example : ffFlacBlocksizeTable.getD 15 0 = -32768 := by decide

/-! ### The check -/

/-- The check that the table is for. -/
def crc8 (c : BitVec 8) (bits : List Bool) : BitVec 8 := Crc.crcBits 0x07 c bits

theorem crc8Atm_eq (i : Fin 256) :
    crc8Atm i = (crc8 (BitVec.ofNat 8 i) (List.replicate 8 false)).setWidth 32 := by
  revert i
  decide +kernel

theorem wordBits_eq {w : Nat} (v : BitVec w) : Crc.wordBits v = field w v.toNat := by
  refine List.map_congr_left fun k hk => ?_
  rw [List.mem_range] at hk
  rw [BitVec.getMsbD, decide_eq_true hk, Bool.true_and, BitVec.testBit_toNat]

/-- A byte of the loop. -/
theorem crc8Atm_byte (c : BitVec 8) (byte : UInt8) :
    crc8Atm ((c.setWidth 32).toNat % 256 ^^^ byte.toNat) ^^^ c.setWidth 32 >>> 8 =
      (crc8 c (field 8 byte.toNat)).setWidth 32 := by
  have hlow : (c.setWidth 32).toNat % 256 = c.toNat := by
    have := c.isLt
    simp only [BitVec.toNat_setWidth]
    omega
  have hhigh : c.setWidth 32 >>> 8 = 0#32 := by
    refine BitVec.eq_of_toNat_eq ?_
    have := c.isLt
    simp only [BitVec.toNat_ushiftRight, BitVec.toNat_setWidth, Nat.shiftRight_eq_div_pow,
      BitVec.toNat_ofNat]
    omega
  have hindex : c.toNat ^^^ byte.toNat < 2 ^ 8 := Nat.xor_lt_two_pow c.isLt byte.toNat_lt
  have hword : BitVec.ofNat 8 (c.toNat ^^^ byte.toNat) = c ^^^ byte.toBitVec :=
    BitVec.eq_of_toNat_eq (by rw [BitVec.toNat_ofNat, Nat.mod_eq_of_lt hindex]; rfl)
  have htable := crc8Atm_eq ⟨c.toNat ^^^ byte.toNat, hindex⟩
  have hbits : crc8 c (field 8 byte.toNat) =
      crc8 (c ^^^ byte.toBitVec) (List.replicate 8 false) := by
    rw [show field 8 byte.toNat = Crc.wordBits byte.toBitVec from (wordBits_eq _).symm]
    exact Crc.crcBits_word ..
  rw [hlow, hhigh, BitVec.xor_zero, htable, hword, hbits]

/-- What the table makes of a buffer is what is made of its bits. -/
theorem avCrc_eq (c : BitVec 8) (buffer : List UInt8) :
    avCrc crc8Atm (c.setWidth 32) buffer =
      (crc8 c (buffer.flatMap fun byte => field 8 byte.toNat)).setWidth 32 := by
  induction buffer generalizing c with
  | nil => rfl
  | cons byte buffer ih =>
    rw [avCrc, crc8Atm_byte, ih, List.flatMap_cons, crc8, crc8, crc8, Crc.crcBits_append]

/-! ### The number -/

/-- The bytes behind the first, with six bits each. -/
def utf8Tail : Nat → Nat → List Bool
  | 0, _ => []
  | m + 1, n => field 8 (128 + n >>> (6 * m) % 2 ^ 6) ++ utf8Tail m n

/-- The first byte has as many ones as there are bytes, if there is more than one. -/
def utf8Lead (m n : Nat) : Nat := if m = 0 then n else 256 - 2 ^ (7 - m) + n >>> (6 * m)

/-- A number with `m` bytes behind the first. -/
def utf8Bits (m n : Nat) : List Bool := field 8 (utf8Lead m n) ++ utf8Tail m n

/-- The bits that are left in the first byte. -/
def utf8Room (m : Nat) : Nat := if m = 0 then 7 else 6 - m

theorem length_utf8Tail (m n : Nat) : (utf8Tail m n).length = 8 * m := by
  induction m with
  | zero => rfl
  | succ m ih => rw [utf8Tail, List.length_append, length_field, ih, Nat.mul_add, Nat.add_comm]

theorem length_utf8Bits (m n : Nat) : (utf8Bits m n).length = 8 * (m + 1) := by
  rw [utf8Bits, List.length_append, length_field, length_utf8Tail]
  omega

theorem utf8Lead_one (x : Fin 128) :
    7 - avLog2 (x.val ^^^ 255) = 0 ∧ x.val &&& 127 >>> 0 = x.val := by
  revert x
  decide +kernel

theorem utf8Lead_more (m : Fin 6) (x : Fin 64) (hx : x.val < 2 ^ (5 - m.val)) :
    7 - avLog2 ((256 - 2 ^ (6 - m.val) + x.val) ^^^ 255) = m.val + 2 ∧
      (256 - 2 ^ (6 - m.val) + x.val) &&& 127 >>> (m.val + 2) = x.val ∧
        256 - 2 ^ (6 - m.val) + x.val < 256 := by
  revert m x
  decide +kernel

theorem reads_utf8Rest (m n : Nat) :
    Reads (utf8Rest m (n >>> (6 * m) : Nat)) (utf8Tail m n) n := by
  induction m with
  | zero => exact reads_pure _
  | succ m ih =>
    have hlow : n >>> (6 * m) % 2 ^ 6 < 2 ^ 6 := Nat.mod_lt _ (by omega)
    have hval : ((n >>> (6 * (m + 1)) : Nat) : Int) * 2 ^ 6 +
        (((128 + n >>> (6 * m) % 2 ^ 6 : Nat) : Int) - 128) = (n >>> (6 * m) : Nat) := by
      rw [Nat.mul_add, Nat.mul_one, Nat.shiftRight_add, Nat.shiftRight_eq_div_pow _ 6]
      omega
    have hbyte : (((128 + n >>> (6 * m) % 2 ^ 6 : Nat) : Int) - 128) >>> (6 : Nat) = 0 := by
      rw [Int.shiftRight_eq_div_pow]
      omega
    rw [utf8Rest, utf8Tail]
    refine (reads_getBits (by omega) (by omega) (by omega)).bind ?_
    simp only [hbyte, hval]
    exact ih

theorem reads_getUtf8 {m n : Nat} (hm : m ≤ 6) (hn : n >>> (6 * m) < 2 ^ utf8Room m) :
    Reads getUtf8 (utf8Bits m n) n := by
  rw [getUtf8, utf8Bits, utf8Lead]
  rcases m with _ | m
  · have hn' : n < 128 := hn
    obtain ⟨hones, hval⟩ := utf8Lead_one ⟨n, hn'⟩
    refine (reads_getBits (by omega) (by omega) (by simp; omega)).bind ?_
    simp only [if_true] at hones hval ⊢
    rw [hones, if_neg (by omega), hval]
    exact reads_utf8Rest 0 n
  · have hpow : 2 ^ (5 - m) ≤ 2 ^ 5 := Nat.pow_le_pow_right (by omega) (by omega)
    have hroom : n >>> (6 * (m + 1)) < 2 ^ (5 - m) := by
      rwa [utf8Room, if_neg (by omega), show 6 - (m + 1) = 5 - m by omega] at hn
    obtain ⟨hones, hval, hlt⟩ := utf8Lead_more ⟨m, by omega⟩
      ⟨n >>> (6 * (m + 1)), by omega⟩ hroom
    simp only at hones hval hlt
    rw [if_neg (by omega), show 7 - (m + 1) = 6 - m by omega]
    refine (reads_getBits (by omega) (by omega) hlt).bind ?_
    simp only [hones, hval]
    rw [if_neg (by omega)]
    exact reads_utf8Rest (m + 1) n

/-! ### Coded headers -/

structure FrameHeader where
  variableBlocks : Bool
  bsCode : Nat
  srCode : Nat
  chMode : Nat
  bpsCode : Nat
  /-- The number, and how many bytes there are behind its first. -/
  number : Nat
  numberTail : Nat
  /-- What is in the fields that some codes have at the end. -/
  bsField : Nat
  srField : Nat
  deriving DecidableEq, Repr

def FrameHeader.bsWidth (h : FrameHeader) : Nat :=
  if h.bsCode = 6 then 8 else if h.bsCode = 7 then 16 else 0

def FrameHeader.srWidth (h : FrameHeader) : Nat :=
  if h.srCode = 12 then 8 else if h.srCode = 13 ∨ h.srCode = 14 then 16 else 0

/-- The samples of each channel. -/
def FrameHeader.blocksize (h : FrameHeader) : Nat :=
  if h.bsCode = 6 ∨ h.bsCode = 7 then h.bsField + 1
  else if h.bsCode = 1 then 192
  else if h.bsCode < 6 then 576 * 2 ^ (h.bsCode - 2)
  else 256 * 2 ^ (h.bsCode - 8)

def FrameHeader.samplerate (h : FrameHeader) : Nat :=
  if h.srCode < 12 then ffFlacSampleRateTable.getD h.srCode 0
  else if h.srCode = 12 then h.srField * 1000
  else if h.srCode = 13 then h.srField
  else h.srField * 10

def FrameHeader.channels (h : FrameHeader) : Nat := if h.chMode < 8 then h.chMode + 1 else 2

def FrameHeader.bps (h : FrameHeader) : Nat := sampleSizeTable.getD h.bpsCode 0

def FrameHeader.info (h : FrameHeader) : FLACFrameInfo where
  samplerate := h.samplerate
  channels := h.channels
  bps := h.bps
  blocksize := h.blocksize
  chMode := if h.chMode < 8 then flacChmodeIndependent else h.chMode

/-- Everything before the CRC. -/
def FrameHeader.fields (h : FrameHeader) : List Bool :=
  field 15 0x7FFC ++ ([h.variableBlocks] ++ (field 4 h.bsCode ++ (field 4 h.srCode ++
    (field 4 h.chMode ++ (field 3 h.bpsCode ++ ([false] ++ (utf8Bits h.numberTail h.number ++
      (field h.bsWidth h.bsField ++ field h.srWidth h.srField))))))))

def FrameHeader.bits (h : FrameHeader) : List Bool :=
  h.fields ++ field 8 (crc8 0 h.fields).toNat

/-- A header that says something. Of blocks with 32768 samples the decoder makes -32768. -/
structure FrameHeader.WellFormed (h : FrameHeader) : Prop where
  bsCode : 0 < h.bsCode ∧ h.bsCode < 15
  srCode : h.srCode < 15
  chMode : h.chMode ≤ 10
  bpsCode : h.bpsCode < 7 ∧ h.bpsCode ≠ 3
  number : h.numberTail ≤ 6 ∧ h.number >>> (6 * h.numberTail) < 2 ^ utf8Room h.numberTail
  bsField : h.bsField < 2 ^ h.bsWidth
  srField : h.srField < 2 ^ h.srWidth

/-- The CRC is a byte of its own. -/
theorem length_fields (h : FrameHeader) : h.fields.length % 8 = 0 := by
  have hbs : h.bsWidth % 8 = 0 := by
    rw [FrameHeader.bsWidth]
    split_ifs <;> rfl
  have hsr : h.srWidth % 8 = 0 := by
    rw [FrameHeader.srWidth]
    split_ifs <;> rfl
  simp only [FrameHeader.fields, List.length_append, length_field, List.length_singleton,
    length_utf8Bits]
  omega

theorem length_bits (h : FrameHeader) : h.bits.length = h.fields.length + 8 := by
  rw [FrameHeader.bits, List.length_append, length_field]

theorem ffFlacBlocksizeTable_spec (code : Fin 15) (hpos : 0 < code.val)
    (hfield : code.val ≠ 6 ∧ code.val ≠ 7) :
    ffFlacBlocksizeTable.getD code.val 0 = (if code.val = 1 then 192
      else if code.val < 6 then 576 * 2 ^ (code.val - 2) else 256 * 2 ^ (code.val - 8) : Nat) := by
  revert code
  decide

theorem reads_readBlocksize {h : FrameHeader} (hwf : h.WellFormed) :
    Reads (readBlocksize h.bsCode) (field h.bsWidth h.bsField) h.blocksize := by
  have hfield := hwf.bsField
  rw [readBlocksize]
  rw [FrameHeader.bsWidth] at hfield ⊢
  by_cases hbyte : h.bsCode = 6
  · rw [if_pos hbyte] at hfield ⊢
    rw [if_pos hbyte, FrameHeader.blocksize, if_pos (Or.inl hbyte)]
    exact Reads.map (reads_getBits (by omega) (by omega) hfield) _
  · rw [if_neg hbyte] at hfield ⊢
    by_cases hword : h.bsCode = 7
    · rw [if_pos hword] at hfield ⊢
      rw [if_neg hbyte, if_pos hword, FrameHeader.blocksize, if_pos (Or.inr hword)]
      exact Reads.map (reads_getBits (by omega) (by omega) hfield) _
    · have htable := ffFlacBlocksizeTable_spec ⟨h.bsCode, hwf.bsCode.2⟩ hwf.bsCode.1
        ⟨hbyte, hword⟩
      rw [if_neg hbyte, if_neg hword, if_neg hword, htable, FrameHeader.blocksize,
        if_neg (not_or.mpr ⟨hbyte, hword⟩)]
      exact reads_pure _

theorem reads_readSamplerate {h : FrameHeader} (hwf : h.WellFormed) (s : FLACContext) :
    Reads (readSamplerate s h.srCode) (field h.srWidth h.srField) h.samplerate := by
  have hfield := hwf.srField
  have hcode := hwf.srCode
  rw [readSamplerate, FrameHeader.samplerate]
  rw [FrameHeader.srWidth] at hfield ⊢
  by_cases htable : h.srCode < 12
  · rw [if_pos htable, if_pos htable, if_neg (by omega), if_neg (by omega)]
    exact reads_pure _
  · rw [if_neg htable, if_neg htable]
    by_cases hkhz : h.srCode = 12
    · rw [if_pos hkhz] at hfield ⊢
      rw [if_pos hkhz, if_pos hkhz]
      exact Reads.map (reads_getBits (by omega) (by omega) hfield) _
    · rw [if_neg hkhz] at hfield ⊢
      rw [if_neg hkhz, if_neg hkhz]
      by_cases hhz : h.srCode = 13
      · rw [if_pos (Or.inl hhz)] at hfield ⊢
        rw [if_pos hhz, if_pos hhz]
        exact reads_getBits (by omega) (by omega) hfield
      · have htens : h.srCode = 14 := by omega
        rw [if_pos (Or.inr htens)] at hfield ⊢
        rw [if_neg hhz, if_neg hhz, if_pos htens]
        exact Reads.map (reads_getBits (by omega) (by omega) hfield) _

theorem reads_readHeader {h : FrameHeader} (hwf : h.WellFormed) (s : FLACContext) :
    Reads (readHeader s) h.fields h.info := by
  have hbs := hwf.bsCode
  have hsr := hwf.srCode
  have hch := hwf.chMode
  have hbps := hwf.bpsCode
  have hmid : flacChmodeMidSide = 10 := rfl
  rw [readHeader, FrameHeader.fields]
  refine (reads_getBits (by omega) (by omega) (by omega)).bind ?_
  refine (reads_failIf (by decide) s).then ?_
  refine (reads_skipBits [h.variableBlocks]).bind ?_
  refine (reads_getBits (by omega) (by omega) (by omega)).bind ?_
  refine (reads_getBits (by omega) (by omega) (by omega)).bind ?_
  refine (reads_getBits (by omega) (by omega) (by omega)).bind ?_
  refine (reads_failIf (by omega) s).then ?_
  refine (reads_getBits (by omega) (by omega) (by omega)).bind ?_
  refine (reads_failIf (by omega) s).then ?_
  refine (reads_getBits1 false).bind ?_
  refine (reads_failIf (by simp) s).then ?_
  refine (reads_getUtf8 hwf.number.1 hwf.number.2).bind ?_
  refine (reads_failIf (by omega) s).then ?_
  refine (reads_failIf (by omega) s).then ?_
  refine (reads_readBlocksize hwf).bind ?_
  exact Reads.map (reads_readSamplerate hwf s) _

/-- Some modes are none. -/
theorem readHeader_fails (blocks : Bool) {bsCode srCode chMode : Nat} (hbs : bsCode < 16)
    (hsr : srCode < 16) (hch : 10 < chMode ∧ chMode < 16) (s : FLACContext) :
    Fails (readHeader s) (field 15 0x7FFC ++ ([blocks] ++ (field 4 bsCode ++ (field 4 srCode ++
      (field 4 chMode ++ []))))) (.error s) := by
  have hmid : flacChmodeMidSide = 10 := rfl
  refine (reads_getBits (by omega) (by omega) (by omega)).fails ?_
  refine (reads_failIf (by decide) s).thenFails ?_
  refine (reads_skipBits [blocks]).fails ?_
  refine (reads_getBits (by omega) (by omega) hbs).fails ?_
  refine (reads_getBits (by omega) (by omega) hsr).fails ?_
  refine (reads_getBits (by omega) (by omega) hch.2).fails ?_
  exact (fails_failIf (by omega) s).bind _

/-- Over the header and its check there is nothing left. -/
theorem avCrc_header {h : FrameHeader} {mem : Mem} (hbits : Holds mem 0 h.bits) :
    avCrc crc8Atm 0 ((List.range (h.bits.length / 8)).map mem) = 0 := by
  have hlen : h.bits.length = 8 * (h.bits.length / 8) := by
    have := length_fields h
    have := length_bits h
    omega
  have hbytes := flatMap_bytes (k := 0) hbits hlen
  have hself : crc8 0 h.bits = 0 := by
    rw [FrameHeader.bits, crc8, Crc.crcBits_append, ← wordBits_eq]
    exact Crc.crcBits_self ..
  rw [List.range_eq_range', show (0 : BitVec 32) = (0 : BitVec 8).setWidth 32 from rfl, avCrc_eq,
    hbytes, hself]

/-- The header stands at the beginning of the buffer. -/
theorem decodeFrameHeader_eq {h : FrameHeader} (hwf : h.WellFormed) (s : FLACContext) {mem : Mem}
    (hbits : Holds mem 0 h.bits) :
    decodeFrameHeader s mem 0 = .ok (h.info, h.bits.length) := by
  have hfields := reads_readHeader hwf s mem 0 (holds_append.mp hbits).1
  have hcrc := avCrc_header hbits
  have hcheck := reads_failIf (not_not.mpr rfl : ¬(0 : BitVec 32) ≠ 0) s mem h.bits.length
    (holds_nil mem _)
  rw [Nat.zero_add] at hfields
  rw [length_bits] at hcrc hcheck ⊢
  rw [decodeFrameHeader, run_bind, hfields, Except.bind, run_bind, skipBits, Except.bind, run_bind,
    crcBefore, hcrc, Except.bind, run_bind, hcheck]
  rfl

end Streambox.Flac
