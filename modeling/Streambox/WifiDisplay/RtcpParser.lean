import Streambox.WifiDisplay.RtpParser

/-! wifi-display, RTPSink.cpp: `RTPSink::parseRTCP`, with `parseSR` and `parseBYE`.

    A datagram has one RTCP packet behind the other, each with its length in words.

        data ──▶ | V P RC | type | words | ..      | V P RC | type | words | ..       | padding |
                 `------ headerLength ------'      `------ headerLength ------'

    The loop looks at a header only if eight bytes are left, takes the padding that a header
    announces off the end of the datagram, and goes on behind the packet. A packet has at least one
    word, so the loop takes no more turns than the datagram has words. -/

namespace Streambox.WifiDisplay.RtcpParser
open Streambox.Lib Streambox.WifiDisplay.RtpFormat Streambox.WifiDisplay.RtpParser

/-- What is left of the datagram: where it begins, and the size. -/
structure Cursor (w : Nat) where
  data : Nat
  size : BitVec w

/-- What `parseSR` logs. -/
structure SenderReport where
  ssrc : UInt32
  ntpTime : UInt64
  rtpTime : UInt32

section parser
variable {w : Nat}

/-- `parseBYE`, with the id that it reads. -/
def parseBYE (d : Bytes) (data : Nat) (size : BitVec w) : Except Stop UInt32 := do
  let b0 ← fetch d data
  let sc := BitVec.ofNat w (b0 &&& 0x3f).toNat
  if sc = 0#w ∨ size < 4#w + sc * 4#w then .error .malformed else u32At d (data + 4)

/-- `parseSR`. -/
def parseSR (d : Bytes) (data : Nat) (size : BitVec w) : Except Stop SenderReport := do
  let b0 ← fetch d data
  let rc := BitVec.ofNat w (b0 &&& 0x1f).toNat
  if size < (7#w + rc * 6#w) * 4#w then .error .malformed
  else do
    let id ← u32At d (data + 4)
    let ntpTime ← u64At d (data + 8)
    let rtpTime ← u32At d (data + 16)
    return ⟨id, ntpTime, rtpTime⟩

/-- The status of a packet is not looked at. -/
def ignoreStatus {α : Type} : Except Stop α → Except Stop Unit
  | .error .outside => .error .outside
  | _ => .ok ()

/-- The switch over the type of a packet. -/
def parsePacket (d : Bytes) (data : Nat) (headerLength : BitVec w) (packetType : UInt8) :
    Except Stop Unit :=
  match packetType with
  | 200 => ignoreStatus (parseSR d data headerLength)
  -- RR, SDES and APP
  | 201 | 202 | 204 => .ok ()
  -- feedback of the transport layer and of the payload
  | 205 | 206 => .ok ()
  | 203 => ignoreStatus (parseBYE d data headerLength)
  -- logged as unknown
  | _ => .ok ()

/-- One turn of the loop of `parseRTCP`. -/
def rtcpTurn (d : Bytes) (c : Cursor w) : Except Stop (Option (Cursor w)) :=
  if c.size = 0#w then .ok none
  else if c.size < 8#w then .error .malformed
  else do
    let flags ← fetch d c.data
    if flags >>> 6 ≠ 2 then .error .unsupported
    else do
      let size ← stripPadding d c.data c.size
      let b2 ← fetch d (c.data + 2)
      let b3 ← fetch d (c.data + 3)
      let headerLength := BitVec.ofNat w (4 * beInt b2 b3 + 4)
      if size < headerLength then .error .malformed
      else do
        let packetType ← fetch d (c.data + 1)
        parsePacket d c.data headerLength packetType
        return some ⟨c.data + headerLength.toNat, size - headerLength⟩

/-- `parseRTCP`, with no more than a number of turns: `none` if it has not returned by then. -/
def parseRTCP (w turns : Nat) (d : Bytes) : Option (Except Stop Unit) :=
  takeTurns (rtcpTurn d) turns (⟨0, BitVec.ofNat w d.length⟩ : Cursor w)

end parser

/-! ### The packets -/

/-- No read was outside. -/
def Inside (e : Stop) : Prop := e ≠ .outside

theorem ignoreStatus_ends {α : Type} {x : Except Stop α} {post : α → Prop}
    (hx : Ends x Inside post) : Ends (ignoreStatus x) Inside fun _ => True := by
  cases x with
  | ok a => trivial
  | error e =>
    cases e with
    | outside => exact absurd rfl hx
    | malformed => trivial
    | unsupported => trivial

section packets
variable {w : Nat} {d : Bytes} {data : Nat} {size : BitVec w}

theorem toNat_mask (b mask : UInt8) : (b &&& mask).toNat ≤ mask.toNat := by
  rw [UInt8.toNat_and]
  exact Nat.and_le_right

/-- A BYE packet that is not refused has its id. -/
theorem parseBYE_ends (hw : 32 ≤ w) (hin : data + size.toNat ≤ d.length)
    (hpos : 0 < size.toNat) : Ends (parseBYE d data size) Inside fun _ => True := by
  refine (fetch_ends (by omega)).bind fun b0 _ => Ends.ite (fun _ => ?_) fun h => ?_
  · exact nofun
  · have hmask : (b0 &&& 0x3f).toNat ≤ 63 := toNat_mask b0 0x3f
    obtain ⟨hsc, hsize⟩ := not_or.mp h
    have hone : (b0 &&& 0x3f).toNat ≠ 0 := by
      intro hzero
      rw [hzero] at hsc
      exact hsc rfl
    have hmin : (4#w + BitVec.ofNat w (b0 &&& 0x3f).toNat * 4#w).toNat
        = 4 + (b0 &&& 0x3f).toNat * 4 := by
      rw [← BitVec.ofNat_mul, ← BitVec.ofNat_add, toNat_size hw (by omega)]
    rw [BitVec.lt_def, hmin] at hsize
    exact u32At_ends (by omega)

/-- A sender report that is not refused has its first five words. -/
theorem parseSR_ends (hw : 32 ≤ w) (hin : data + size.toNat ≤ d.length)
    (hpos : 0 < size.toNat) : Ends (parseSR d data size) Inside fun _ => True := by
  refine (fetch_ends (by omega)).bind fun b0 _ => Ends.ite (fun _ => ?_) fun hsize => ?_
  · exact nofun
  · have hmask : (b0 &&& 0x1f).toNat ≤ 31 := toNat_mask b0 0x1f
    have hmin : ((7#w + BitVec.ofNat w (b0 &&& 0x1f).toNat * 6#w) * 4#w).toNat
        = (7 + (b0 &&& 0x1f).toNat * 6) * 4 := by
      rw [← BitVec.ofNat_mul, ← BitVec.ofNat_add, ← BitVec.ofNat_mul, toNat_size hw (by omega)]
    rw [BitVec.lt_def, hmin] at hsize
    refine (u32At_ends (by omega)).bind fun id _ => ?_
    refine (u64At_ends (by omega)).bind fun ntpTime _ => ?_
    exact (u32At_ends (by omega)).bind fun rtpTime _ => trivial

theorem parsePacket_ends (hw : 32 ≤ w) (packetType : UInt8)
    (hin : data + size.toNat ≤ d.length) (hpos : 0 < size.toNat) :
    Ends (parsePacket d data size packetType) Inside fun _ => True := by
  unfold parsePacket
  split
  · exact ignoreStatus_ends (parseSR_ends hw hin hpos)
  all_goals first | trivial | exact ignoreStatus_ends (parseBYE_ends hw hin hpos)

end packets

/-! ### The loop -/

/-- What is left is a part of the datagram. -/
def Within {w : Nat} (d : Bytes) (c : Cursor w) : Prop := c.data + c.size.toNat ≤ d.length

/-- A turn goes on behind a packet of at least one word. -/
theorem rtcpTurn_ends {w : Nat} (hw : 32 ≤ w) (d : Bytes) (c : Cursor w) (hc : Within d c) :
    Ends (rtcpTurn d c) Inside fun o => ∀ c', o = some c' →
      Within d c' ∧ c'.size.toNat / 4 < c.size.toNat / 4 := by
  rw [Within] at hc
  have height : (8#w).toNat = 8 := toNat_size hw (by decide)
  refine Ends.ite (fun _ => ?_) fun _ => Ends.ite (fun _ => nofun) fun hsize => ?_
  · exact fun c' h => by cases h
  rw [BitVec.lt_def, height] at hsize
  refine (fetch_ends (by omega)).bind fun flags _ => Ends.ite (fun _ => nofun) fun _ => ?_
  have hstrip := stripPadding_ends hw d c.data c.size (by omega) hc
  refine (hstrip.mono ?_ fun _ h => h.1).bind fun size hleft => ?_
  · rintro e ⟨rfl, -⟩
    exact nofun
  have hle : size.toNat ≤ c.size.toNat := by
    rw [hleft]
    exact Nat.sub_le ..
  refine (fetch_ends (by omega)).bind fun b2 _ => (fetch_ends (by omega)).bind fun b3 _ => ?_
  have hwords := beInt_lt b2 b3
  have hheader := toNat_size hw (n := 4 * beInt b2 b3 + 4) (by omega)
  refine Ends.ite (fun _ => nofun) fun hfits => ?_
  rw [BitVec.lt_def, hheader] at hfits
  refine (fetch_ends (by omega)).bind fun packetType _ => ?_
  refine (parsePacket_ends hw packetType (by omega) (by omega)).bind fun _ _ => ?_
  intro c' h
  cases h
  have hrest : (size - BitVec.ofNat w (4 * beInt b2 b3 + 4)).toNat
      = size.toNat - (4 * beInt b2 b3 + 4) := by
    rw [toNat_size_sub (by omega), hheader]
  rw [Within]
  simp only [hrest, hheader]
  omega

/-- The loop returns within as many turns as the datagram has words, and no read of it is
    outside. -/
theorem parseRTCP_ends {w : Nat} (hw : 32 ≤ w) (d : Datagram) :
    ∃ r : Except Stop Unit, Ends r Inside (fun _ => True) ∧
      ∀ turns, d.data.length / 4 < turns → parseRTCP w turns d.data = some r := by
  have hlt : d.data.length < 2147483648 := d.length_lt
  have hsize : (BitVec.ofNat w d.data.length).toNat = d.data.length := toNat_size hw (by omega)
  have hstart : Within d.data (⟨0, BitVec.ofNat w d.data.length⟩ : Cursor w) := by
    rw [Within, hsize, Nat.zero_add]
  have hends := takeTurns_ends (rtcpTurn_ends hw d.data) _ hstart
  rwa [hsize] at hends

/-- `parseRTP` hands on the payload of every packet of version 2 and nothing else; `parseRTCP`
    returns; and neither reads a byte that is not in the datagram. -/
theorem parsers_stay_inside {w : Nat} (hw : 32 ≤ w) (s : Sink) (d : Datagram) :
    ((∃ r, parseRTP w s d = .ok r) ↔
      ∃ p : RtpPacket, version p.fixed = 2 ∧ p.bytes = d.data) ∧
    (∀ s' h, parseRTP w s d = .ok (s', h) → ∀ p : RtpPacket, p.bytes = d.data →
      h.offset.toNat = p.header.length ∧ h.length.toNat = p.payload.length ∧
        h.range d = p.payload) ∧
    parseRTP w s d ≠ .error .outside ∧
    ∃ r : Except Stop Unit, r ≠ .error .outside ∧
      ∀ turns, d.data.length / 4 < turns → parseRTCP w turns d.data = some r := by
  refine ⟨parseRTP_ok_iff hw, fun s' h hr p hp => parseRTP_payload hw hr hp, ?_, ?_⟩
  · exact (parseRTP_ends hw s d).ne_error fun h => h.1 rfl
  · obtain ⟨r, hr, hruns⟩ := parseRTCP_ends hw d
    exact ⟨r, hr.ne_error fun h => h rfl, hruns⟩

/-- A packet with all parts: one CSRC, one word of extension, two bytes of payload and two of
    padding. -/
def allParts : RtpPacket where
  fixed := [0xb1, 0x21, 0, 7, 0, 0, 0, 9, 1, 2, 3, 4]
  csrcs := [5, 6, 7, 8]
  extension := [0xbe, 0xde, 0, 1, 1, 2, 3, 4]
  payload := [0x47, 0x40]
  padding := [0, 2]
  fixed_length := by decide
  csrcs_length := by decide
  extension_length := by decide
  padding_length := by decide

theorem parsers_stay_inside_allParts :
    ∃ r, parseRTP 64 (Sink.new false) ⟨allParts.bytes, 0, by decide⟩ = .ok r :=
  (parsers_stay_inside (by decide) _ _).1.mpr ⟨allParts, by decide, rfl⟩

end Streambox.WifiDisplay.RtcpParser
