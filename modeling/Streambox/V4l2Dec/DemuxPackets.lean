import Mathlib.Algebra.Group.Int.Defs
import Mathlib.Data.Int.Order.Basic
import Streambox.Lib.LengthPrefix

/-! demux.c: the packets of a stream, on their way to the decoder.

    A packet of a length-prefixed H.264 or H.265 stream is rewritten with start codes.

        len0 unit0 len1 unit1 ..   ─▶   00 00 00 01 unit0 00 00 00 01 unit1 ..

    `demux_packet` shifts the bytes of each length into one `int` that it does not clear between the
    units: four bytes push out all that was in it, three leave the last byte of the length before on
    top. And nothing compares a length with what is left of the packet. -/

namespace Streambox.V4l2Dec.DemuxPackets
open Streambox.Lib

abbrev Bytes := List UInt8

/-- What the header parsers leave behind, and whether a key frame has been seen. -/
structure Demuxer where
  h2645 : Bool
  rawStream : Bool
  keyframeSeen : Bool
  nalSize : Nat
  deriving DecidableEq, Repr

/-- `AVPacket`; `beyond` is the memory before and behind its bytes. -/
structure Packet where
  bytes : Bytes
  beyond : Int → UInt8
  video : Bool
  key : Bool
  size_lt : bytes.length < 2147483648

/-- The byte at an offset from `pkt->data`. -/
def Packet.byteAt (pkt : Packet) (i : Int) : UInt8 :=
  if 0 ≤ i ∧ i < pkt.bytes.length then pkt.bytes.getD i.toNat 0 else pkt.beyond i

/-- What `demux_packet` calls: `write` with a start code or with a range of the packet, and
    `frame_done`. -/
inductive Call where
  | code (bytes : Bytes)
  | range (off len : Int)
  | frameDone
  deriving DecidableEq, Repr

/-- A sum of `int`s. -/
def int32 (n : Int) : Int := Int.bmod n 4294967296

/-- `(nalu_size << 8) | b`. -/
def shiftIn (n : Int) (b : UInt8) : Int := int32 (n * 256 + b.toNat)

/-- The bytes of a length, shifted into what is there. -/
def readLength (pkt : Packet) : Nat → Int → Int → Int
  | 0, _, n => n
  | k + 1, p, n => readLength pkt k (p + 1) (shiftIn n (pkt.byteAt p))

/-- The start code of `insert_nal`. -/
def startCode (nalSize : Nat) : Bytes := if nalSize = 3 then [0, 0, 1] else [0, 0, 0, 1]

/-- The loop over the units, for at most `fuel` of them: `p` as an offset, `processed` and
    `nalu_size`. -/
def loop (pkt : Packet) (lengthSize : Nat) : Nat → Int → Int → Int → Option (List Call)
  | 0, _, _, _ => none
  | fuel + 1, p, processed, naluSize =>
    if processed < pkt.bytes.length then
      let n := readLength pkt lengthSize p naluSize
      (loop pkt lengthSize fuel (p + lengthSize + n) (int32 (int32 (processed + lengthSize) + n))
        n).map fun calls => .code (startCode lengthSize) :: .range (p + lengthSize) n :: calls
    else some []

/-- Whether a packet is dropped because no key frame has been seen. -/
def Demuxer.drops (d : Demuxer) (pkt : Packet) : Bool := !d.keyframeSeen && !pkt.key

/-- `demux_packet`, for at most `fuel` turns of its loop. -/
def demuxPacket (fuel : Nat) (d : Demuxer) (pkt : Packet) : Option (List Call × Demuxer) :=
  if !pkt.video then some ([], d)
  else if d.h2645 then
    let raw : List Call := if d.rawStream then [.range 0 pkt.bytes.length] else []
    let processed : Int := if d.rawStream then pkt.bytes.length else 0
    if d.drops pkt then some (raw, d)
    else (loop pkt d.nalSize fuel 0 processed 0).map fun calls =>
      (raw ++ calls ++ [.frameDone], { d with keyframeSeen := d.keyframeSeen || pkt.key })
  else some ([.range 0 pkt.bytes.length, .frameDone], d)

/-- The bytes that a call hands over. -/
def Packet.content (pkt : Packet) : Call → Option Bytes
  | .code bytes => some bytes
  | .range off len => some ((List.range len.toNat).map fun i : Nat => pkt.byteAt (off + i))
  | .frameDone => none

/-- A range that is handed over lies in the packet. -/
def Packet.Inside (pkt : Packet) : Call → Prop
  | .range off len => 0 ≤ off ∧ 0 ≤ len ∧ off + len ≤ pkt.bytes.length
  | _ => True

instance (pkt : Packet) (c : Call) : Decidable (pkt.Inside c) := by
  cases c <;> simp only [Packet.Inside] <;> infer_instance

/-! ### How the loop reads a length -/

/-- The length that a field gives on its own. -/
def ownLength (_prev : Int) (field : Bytes) : Int := bigEndian field

/-- The length that the loop makes of a field: what it has from the unit before, shifted on. -/
def carriedLength (prev : Int) (field : Bytes) : Int := field.foldl shiftIn prev

/-- Units behind lengths of `L` bytes, the most significant first. -/
def Framed (L : Nat) (bytes : Bytes) (us : List Bytes) : Prop := Cut L ownLength 0 bytes us

/-- Units as the loop cuts them. -/
def Carved (L : Nat) (bytes : Bytes) (us : List Bytes) : Prop := Cut L carriedLength 0 bytes us

theorem ownLength_eq_iff {prev : Int} {field : Bytes} {n : Nat} :
    ownLength prev field = n ↔ bigEndian field = n := Int.natCast_inj

theorem int32_eq {n : Int} (hlo : -2147483648 ≤ n) (hhi : n < 2147483648) : int32 n = n := by
  rw [int32, Int.bmod_eq_of_le (by omega) (by omega)]

/-- The sum that `processed` becomes in a turn, while it stays in the packet. -/
theorem int32_processed {p k n : Nat} (h : p + k + n < 2147483648) :
    int32 (int32 (p + k) + n) = p + k + n := by
  have hsum : int32 ((p : Int) + k) = p + k := int32_eq (by omega) (by omega)
  rw [hsum, int32_eq (by omega) (by omega)]

theorem carriedLength_eq (prev : Int) (field : Bytes) (hprev : int32 prev = prev) :
    carriedLength prev field = int32 (256 ^ field.length * prev + bigEndian field) := by
  induction field generalizing prev with
  | nil => simp [carriedLength, bigEndian, hprev]
  | cons b field ih =>
    have hwrap : int32 (shiftIn prev b) = shiftIn prev b := by
      rw [shiftIn, int32, int32, Int.bmod_bmod]
    have htail := ih (shiftIn prev b) hwrap
    rw [carriedLength] at htail ⊢
    rw [List.foldl_cons, htail, bigEndian_cons, shiftIn, int32, int32, int32,
      Int.add_bmod, Int.mul_bmod]
    rw [Int.bmod_bmod, ← Int.mul_bmod, ← Int.add_bmod, List.length_cons]
    push_cast
    congr 1
    ring

theorem dvd_of_int32_eq {a b : Int} (h : int32 a = b) : (4294967296 : Int) ∣ a - b := by
  rw [← h, int32]
  exact Int.dvd_self_sub_bmod

theorem int32_eq_of_dvd {a b : Int} (hlo : -2147483648 ≤ b) (hhi : b < 2147483648)
    (h : (4294967296 : Int) ∣ a - b) : int32 a = b := by
  obtain ⟨k, hk⟩ := h
  have ha : a = b + (4294967296 : Nat) * k := by push_cast; omega
  rw [int32, ha, Int.add_mul_bmod_self_left]
  exact int32_eq hlo hhi

/-- Where fields of four bytes are, or where the length before ends in a zero byte, the loop reads
    what a field gives on its own. -/
theorem carriedLength_own {L : Nat} {prev : Int} {field : Bytes} {n : Nat}
    (hfield : field.length = L) (hprev : int32 prev = prev) (hn : n < 2147483648)
    (hown : bigEndian field = n) (hplain : L = 4 ∨ L = 3 ∧ (256 : Int) ∣ prev) :
    carriedLength prev field = n := by
  rw [carriedLength_eq prev field hprev, hfield, hown]
  refine int32_eq_of_dvd (by omega) (by omega) ?_
  rw [add_sub_cancel_right]
  rcases hplain with rfl | ⟨rfl, k, rfl⟩
  · exact ⟨prev, rfl⟩
  · exact ⟨k, by ring⟩

/-- Fields of three bytes are read right only behind a length that ends in a zero byte. -/
theorem dvd_of_carriedLength {prev : Int} {field : Bytes} {n : Nat} (hfield : field.length = 3)
    (hprev : int32 prev = prev) (hown : bigEndian field = n) (h : carriedLength prev field = n) :
    (256 : Int) ∣ prev := by
  rw [carriedLength_eq prev field hprev, hfield, hown] at h
  obtain ⟨k, hk⟩ := dvd_of_int32_eq h
  exact ⟨k, by omega⟩

theorem int32_length {u : Bytes} (h : u.length < 2147483648) :
    int32 (u.length : Int) = u.length := int32_eq (by omega) (by omega)

/-- The units of a packet whose lengths the loop reads right. -/
def Plain (L : Nat) (us : List Bytes) : Prop :=
  L = 4 ∨ L = 3 ∧ ∀ u ∈ us.dropLast, 256 ∣ u.length

theorem carved_of_framed {L : Nat} {bytes : Bytes} {us : List Bytes} {p : Int}
    (h : Cut L ownLength p bytes us) (hsize : bytes.length < 2147483648) {prev : Int}
    (hprev : int32 prev = prev) (hplain : Plain L us)
    (hfirst : L = 4 ∨ L = 3 ∧ (us ≠ [] → (256 : Int) ∣ prev)) :
    Cut L carriedLength prev bytes us := by
  induction h generalizing prev with
  | nil => exact .nil prev
  | unit p field u rest us hfield hlen hne hrest ih =>
    simp only [List.length_append] at hsize
    have hown : bigEndian field = u.length := ownLength_eq_iff.mp hlen
    refine .unit prev field u rest us hfield ?_ hne ?_
    · refine carriedLength_own hfield hprev (by omega) hown ?_
      exact hfirst.imp_right fun h3 => ⟨h3.1, h3.2 (by simp)⟩
    · refine ih (by omega) (int32_length (by omega)) ?_ ?_
      · refine hplain.imp_right fun h3 => ⟨h3.1, fun v hv => h3.2 v ?_⟩
        cases us with
        | nil => simp at hv
        | cons w us => exact List.mem_cons_of_mem u hv
      · refine hplain.imp_right fun h3 => ⟨h3.1, fun hus => ?_⟩
        have hmem : u ∈ (u :: us).dropLast := by
          cases us with
          | nil => exact absurd rfl hus
          | cons w us => exact List.mem_cons_self
        exact_mod_cast h3.2 u hmem

theorem plain_of_carved {bytes : Bytes} {us : List Bytes} {p prev : Int}
    (h : Cut 3 ownLength p bytes us) (hsize : bytes.length < 2147483648)
    (hprev : int32 prev = prev) (hcarved : Cut 3 carriedLength prev bytes us) :
    (us ≠ [] → (256 : Int) ∣ prev) ∧ ∀ u ∈ us.dropLast, 256 ∣ u.length := by
  induction h generalizing prev with
  | nil => exact ⟨fun h => absurd rfl h, fun u hu => by simp at hu⟩
  | unit p field u rest us hfield hlen hne hrest ih =>
    simp only [List.length_append] at hsize
    obtain ⟨field', u', rest', us', heq, hus, hfield', hlen', hrest'⟩ := hcarved.inv hne
    obtain ⟨rfl, rfl⟩ := List.cons.inj hus
    obtain ⟨rfl, htail⟩ := List.append_inj heq (hfield.trans hfield'.symm)
    obtain rfl := List.append_cancel_left htail
    have hown : bigEndian field = u.length := ownLength_eq_iff.mp hlen
    obtain ⟨hnext, hrestPlain⟩ := ih (by omega) (int32_length (by omega)) hrest'
    refine ⟨fun _ => dvd_of_carriedLength hfield hprev hown hlen', ?_⟩
    intro v hv
    cases us with
    | nil => simp at hv
    | cons w us =>
      rcases List.mem_cons.mp hv with rfl | hv
      · exact_mod_cast hnext (by simp)
      · exact hrestPlain v hv

/-! ### The calls of the loop -/

/-- The calls for units that start at an offset. -/
def unitCalls (L : Nat) : Int → List Bytes → List Call
  | _, [] => []
  | off, u :: us =>
    .code (startCode L) :: .range (off + L) u.length :: unitCalls L (off + L + u.length) us

section loop
variable {pkt : Packet} {L : Nat}

theorem byteAt_eq {before tail : Bytes} {b : UInt8} (h : pkt.bytes = before ++ b :: tail) :
    pkt.byteAt before.length = b := by
  simp [Packet.byteAt, h]

theorem readLength_eq {before field tail : Bytes} (n : Int)
    (h : pkt.bytes = before ++ (field ++ tail)) :
    readLength pkt field.length before.length n = carriedLength n field := by
  induction field generalizing before n with
  | nil => rfl
  | cons b field ih =>
    have hnext := @ih (before ++ [b]) (shiftIn n b) (by simp [h])
    rw [List.length_cons, readLength, byteAt_eq h]
    simpa [carriedLength] using hnext

theorem content_range {before u tail : Bytes} (h : pkt.bytes = before ++ (u ++ tail)) :
    pkt.content (.range before.length u.length) = some u := by
  simp only [Packet.content, Int.toNat_natCast, Option.some.injEq]
  refine List.ext_getElem (by simp) ?_
  intro i hi hi'
  simp only [List.getElem_map, List.getElem_range]
  have hsplit : pkt.bytes = (before ++ u.take i) ++ u[i] :: (u.drop (i + 1) ++ tail) := by
    rw [h, List.append_assoc, ← List.cons_append, ← List.drop_eq_getElem_cons hi',
      ← List.append_assoc (u.take i), List.take_append_drop]
  have hlen : (before ++ u.take i).length = before.length + i := by
    simp
    omega
  have := byteAt_eq hsplit
  rwa [hlen, Nat.cast_add] at this

theorem content_unitCalls {prev : Int} {tail : Bytes} {us : List Bytes}
    (h : Cut L carriedLength prev tail us) {before : Bytes} (hpkt : pkt.bytes = before ++ tail) :
    (unitCalls L before.length us).map pkt.content =
      us.flatMap fun u => [some (startCode L), some u] := by
  induction h generalizing before with
  | nil => rfl
  | unit prev field u rest us hfield hlen hne hrest ih =>
    have hbody : pkt.bytes = (before ++ field) ++ (u ++ rest) := by simp [hpkt]
    have hnext := @ih (before ++ field ++ u) (by simp [hpkt])
    have hcontent := content_range hbody
    simp only [List.length_append, hfield, Nat.cast_add] at hnext hcontent
    rw [unitCalls, List.map_cons, List.map_cons, hcontent, hnext]
    rfl

theorem inside_unitCalls {prev : Int} {tail : Bytes} {us : List Bytes}
    (h : Cut L carriedLength prev tail us) {before : Bytes} (hpkt : pkt.bytes = before ++ tail) :
    ∀ c ∈ unitCalls L before.length us, pkt.Inside c := by
  induction h generalizing before with
  | nil => intro c hc; simp [unitCalls] at hc
  | unit prev field u rest us hfield hlen hne hrest ih =>
    have hnext := @ih (before ++ field ++ u) (by simp [hpkt])
    simp only [List.length_append, hfield, Nat.cast_add] at hnext
    intro c hc
    simp only [unitCalls, List.mem_cons] at hc
    rcases hc with rfl | rfl | hc
    · trivial
    · have hsize := congrArg List.length hpkt
      simp only [List.length_append] at hsize
      simp only [Packet.Inside]
      omega
    · exact hnext c hc

/-- A packet that the loop cuts into units is gone through in a number of turns, with the calls of
    these units. -/
theorem loop_of_carved {prev : Int} {tail : Bytes} {us : List Bytes}
    (h : Cut L carriedLength prev tail us) {before : Bytes} (hpkt : pkt.bytes = before ++ tail) :
    ∃ fuel, loop pkt L fuel before.length before.length prev =
      some (unitCalls L before.length us) := by
  induction h generalizing before with
  | nil => exact ⟨1, by simp [loop, hpkt, unitCalls]⟩
  | unit prev field u rest us hfield hlen hne hrest ih =>
    obtain ⟨fuel, hfuel⟩ := @ih (before ++ field ++ u) (by simp [hpkt])
    have hsize := congrArg List.length hpkt
    have hlt := pkt.size_lt
    simp only [List.length_append] at hsize
    have hturn : (before.length : Int) < pkt.bytes.length := by
      have hpos := List.length_pos_iff.mpr hne
      simp only [List.length_append] at hpos
      omega
    have hread : readLength pkt L before.length prev = u.length := by
      rw [← hfield, readLength_eq prev hpkt, hlen]
    refine ⟨fuel + 1, ?_⟩
    simp only [List.length_append, hfield, Nat.cast_add] at hfuel
    simp only [loop, hturn, if_true, hread]
    rw [int32_processed (by omega), hfuel]
    rfl

theorem exists_parts {tail : Bytes} {L n : Nat} (h : L + n ≤ tail.length) :
    ∃ field u rest, tail = field ++ (u ++ rest) ∧ field.length = L ∧ u.length = n := by
  refine ⟨tail.take L, (tail.drop L).take n, (tail.drop L).drop n, ?_, ?_, ?_⟩
  · rw [List.take_append_drop, List.take_append_drop]
  · exact List.length_take_of_le (by omega)
  · exact List.length_take_of_le (by rw [List.length_drop]; omega)

/-- A run of the loop that ends with every range in the packet has cut it into units. -/
theorem carved_of_loop {fuel : Nat} {prev : Int} {before tail : Bytes} {calls : List Call}
    (hloop : loop pkt L fuel before.length before.length prev = some calls)
    (hpkt : pkt.bytes = before ++ tail) (hinside : ∀ c ∈ calls, pkt.Inside c) :
    ∃ us, Cut L carriedLength prev tail us ∧ calls = unitCalls L before.length us := by
  induction fuel generalizing prev before tail calls with
  | zero => cases hloop
  | succ fuel ih =>
    have hsize := congrArg List.length hpkt
    have hlt := pkt.size_lt
    rw [List.length_append] at hsize
    rw [loop] at hloop
    split at hloop
    next hturn =>
      obtain ⟨rest, hrest, rfl⟩ := Option.map_eq_some_iff.mp hloop
      -- the range of this turn is in the packet, so the field and the unit are
      have hrange : pkt.Inside (.range (before.length + L)
          (readLength pkt L before.length prev)) := hinside _ (by simp)
      obtain ⟨-, hpos, hend⟩ := hrange
      obtain ⟨n, hn⟩ := Int.eq_ofNat_of_zero_le hpos
      rw [hn] at hrest hend
      obtain ⟨field, u, after, rfl, hfield, rfl⟩ := exists_parts (by omega : L + n ≤ tail.length)
      have hread := readLength_eq prev hpkt
      rw [hfield, hn] at hread
      rw [int32_processed (by omega)] at hrest
      have hoff : (before.length : Int) + L + u.length = (before ++ field ++ u).length := by
        simp only [List.length_append, hfield, Nat.cast_add]
      rw [hoff] at hrest
      have hafter : pkt.bytes = before ++ field ++ u ++ after := by simp [hpkt]
      obtain ⟨us, hcut, rfl⟩ := ih hrest hafter fun c hc => hinside c (by simp [hc])
      have hne : field ++ (u ++ after) ≠ [] := by
        intro hnil
        rw [hnil, List.length_nil] at hsize
        omega
      refine ⟨u :: us, .unit prev field u after us hfield hread.symm hne hcut, ?_⟩
      rw [unitCalls, hoff, hn]
    next hturn =>
      have hnil : tail = [] := List.length_eq_zero_iff.mp (by omega)
      subst hnil
      exact ⟨[], .nil prev, (Option.some.inj hloop).symm⟩

end loop

/-! ### Every packet -/

/-- A packet that goes through the loop: of a length-prefixed stream, and not dropped. -/
def Rewritten (d : Demuxer) (pkt : Packet) : Prop :=
  pkt.video = true ∧ d.h2645 = true ∧ d.rawStream = false ∧ d.drops pkt = false

/-- The call returns, with every range in the packet. -/
def StaysInside (d : Demuxer) (pkt : Packet) : Prop :=
  ∃ fuel calls d', demuxPacket fuel d pkt = some (calls, d') ∧ ∀ c ∈ calls, pkt.Inside c

/-- The call returns and has handed over a start code and the unit for each unit in order, from
    within the packet, and then said once that the frame is done. -/
def Converts (d : Demuxer) (pkt : Packet) (us : List Bytes) : Prop :=
  ∃ fuel calls d', demuxPacket fuel d pkt = some (calls, d') ∧ (∀ c ∈ calls, pkt.Inside c) ∧
    calls.map pkt.content = (us.flatMap fun u => [some (startCode d.nalSize), some u]) ++ [none]

/-- The packet is units behind lengths of three or four bytes. -/
def LengthPrefixed (d : Demuxer) (pkt : Packet) (us : List Bytes) : Prop :=
  Rewritten d pkt ∧ (d.nalSize = 3 ∨ d.nalSize = 4) ∧ Framed d.nalSize pkt.bytes us

/-- What is asked for a packet. -/
def Handled (d : Demuxer) (pkt : Packet) : Prop :=
  (∀ us, LengthPrefixed d pkt us → Converts d pkt us) ∧
  ((¬ ∃ us, LengthPrefixed d pkt us) → StaysInside d pkt)

/-- The packets that the loop is right for. Units behind lengths: if the lengths have four bytes, or
    every unit but the last has a length that ends in a zero byte. Other packets: if the lengths,
    each behind the last bytes of the one before, do cut the packet into units. -/
def Served (d : Demuxer) (pkt : Packet) : Prop :=
  Rewritten d pkt →
    (∀ us, LengthPrefixed d pkt us → Plain d.nalSize us) ∧
    ((¬ ∃ us, LengthPrefixed d pkt us) → ∃ us, Carved d.nalSize pkt.bytes us)

theorem demuxPacket_rewritten {d : Demuxer} {pkt : Packet} (h : Rewritten d pkt) (fuel : Nat) :
    demuxPacket fuel d pkt = (loop pkt d.nalSize fuel 0 0 0).map fun calls =>
      (calls ++ [.frameDone], { d with keyframeSeen := d.keyframeSeen || pkt.key }) := by
  obtain ⟨hvideo, hcodec, hraw, hdrop⟩ := h
  simp [demuxPacket, hvideo, hcodec, hraw, hdrop]

/-- The other packets: nothing is handed over but the packet as a whole. -/
theorem staysInside_of_not_rewritten {d : Demuxer} {pkt : Packet} (h : ¬ Rewritten d pkt) :
    StaysInside d pkt := by
  have hwhole : pkt.Inside (.range 0 pkt.bytes.length) := by simp [Packet.Inside]
  have hdone : ∀ c ∈ [Call.range 0 pkt.bytes.length, .frameDone], pkt.Inside c := by
    intro c hc
    simp only [List.mem_cons, List.not_mem_nil, or_false] at hc
    rcases hc with rfl | rfl
    · exact hwhole
    · trivial
  by_cases hvideo : pkt.video = true
  · by_cases hcodec : d.h2645 = true
    · cases hdrop : d.drops pkt with
      | true =>
        refine ⟨0, if d.rawStream then [.range 0 pkt.bytes.length] else [], d, ?_, ?_⟩
        · simp [demuxPacket, hvideo, hcodec, hdrop]
        · intro c hc
          split at hc
          · exact List.mem_singleton.mp hc ▸ hwhole
          · cases hc
      | false =>
        -- a raw stream: the loop has nothing left to do
        have hraw : d.rawStream = true := by
          by_contra hraw
          exact h ⟨hvideo, hcodec, by simpa using hraw, hdrop⟩
        exact ⟨1, _, { d with keyframeSeen := d.keyframeSeen || pkt.key },
          by simp [demuxPacket, hvideo, hcodec, hdrop, hraw, loop], hdone⟩
    · exact ⟨0, _, d, by simp [demuxPacket, hvideo, hcodec], hdone⟩
  · exact ⟨0, [], d, by simp [demuxPacket, hvideo], fun c hc => by simp at hc⟩

/-- The units can be read off what is handed over for them. -/
theorem units_of_contents {code : Bytes} {us vs : List Bytes}
    (h : (us.flatMap fun u => [some code, some u]) ++ [none] =
      (vs.flatMap fun u => [some code, some u]) ++ [none]) : us = vs := by
  have hcancel := List.append_cancel_right h
  induction us generalizing vs with
  | nil =>
    cases vs with
    | nil => rfl
    | cons v vs => simp at hcancel
  | cons u us ih =>
    cases vs with
    | nil => simp at hcancel
    | cons v vs =>
      simp only [List.flatMap_cons, List.cons_append, List.nil_append, List.cons.injEq,
        Option.some.injEq, true_and] at hcancel
      rw [hcancel.1, ih (congrArg (· ++ [none]) hcancel.2) hcancel.2]

section rewritten
variable {d : Demuxer} {pkt : Packet}

/-- A packet that the loop cuts into units is converted to them. -/
theorem converts_of_carved (h : Rewritten d pkt) {us : List Bytes}
    (hus : Carved d.nalSize pkt.bytes us) :
    Converts d pkt us := by
  have hpkt : pkt.bytes = [] ++ pkt.bytes := rfl
  obtain ⟨fuel, hfuel⟩ := loop_of_carved hus hpkt
  have hcontent := content_unitCalls hus hpkt
  have hinside := inside_unitCalls hus hpkt
  refine ⟨fuel, unitCalls d.nalSize 0 us ++ [.frameDone],
    { d with keyframeSeen := d.keyframeSeen || pkt.key }, ?_, ?_, ?_⟩
  · rw [demuxPacket_rewritten h]
    exact congrArg _ hfuel
  · intro c hc
    rcases List.mem_append.mp hc with hc | hc
    · exact hinside c hc
    · rw [List.mem_singleton.mp hc]
      trivial
  · rw [List.map_append]
    exact congrArg (· ++ [none]) hcontent

/-- A call that returns with every range in the packet has cut it into units. -/
theorem carved_of_inside (h : Rewritten d pkt) {fuel : Nat} {calls : List Call} {d' : Demuxer}
    (hcall : demuxPacket fuel d pkt = some (calls, d')) (hinside : ∀ c ∈ calls, pkt.Inside c) :
    ∃ us, Carved d.nalSize pkt.bytes us ∧
      calls.map pkt.content =
        (us.flatMap fun u => [some (startCode d.nalSize), some u]) ++ [none] := by
  rw [demuxPacket_rewritten h] at hcall
  obtain ⟨rest, hrest, heq⟩ := Option.map_eq_some_iff.mp hcall
  obtain ⟨rfl, -⟩ := Prod.mk.inj heq
  have hpkt : pkt.bytes = [] ++ pkt.bytes := rfl
  have hloop : loop pkt d.nalSize fuel ([] : Bytes).length ([] : Bytes).length 0 = some rest :=
    hrest
  obtain ⟨us, hus, rfl⟩ := carved_of_loop hloop hpkt fun c hc =>
    hinside c (List.mem_append_left _ hc)
  refine ⟨us, hus, ?_⟩
  rw [List.map_append, content_unitCalls hus hpkt]
  rfl

/-- Units that are converted are ones whose lengths the loop reads right. -/
theorem plain_of_converts {us : List Bytes} (hus : LengthPrefixed d pkt us)
    (hconverts : Converts d pkt us) : Plain d.nalSize us := by
  obtain ⟨fuel, calls, d', hcall, hinside, hcontent⟩ := hconverts
  obtain ⟨hrw, hsize | hsize, hframed⟩ := hus
  · obtain ⟨vs, hcarved, hcontent'⟩ := carved_of_inside hrw hcall hinside
    obtain rfl := units_of_contents (hcontent.symm.trans hcontent')
    have hzero : int32 0 = 0 := rfl
    rw [Framed, hsize] at hframed
    rw [Carved, hsize] at hcarved
    exact .inr ⟨hsize, (plain_of_carved hframed pkt.size_lt hzero hcarved).2⟩
  · exact .inl hsize

end rewritten

/-- A packet is handled as it should be exactly when it is one that the loop is right for. -/
theorem handled_iff_served (d : Demuxer) (pkt : Packet) : Handled d pkt ↔ Served d pkt := by
  constructor
  · intro hhandled hrw
    constructor
    · intro us hus
      exact plain_of_converts hus (hhandled.1 us hus)
    · intro hother
      obtain ⟨fuel, calls, d', hcall, hinside⟩ := hhandled.2 hother
      obtain ⟨us, hcarved, -⟩ := carved_of_inside hrw hcall hinside
      exact ⟨us, hcarved⟩
  · intro hserved
    constructor
    · intro us hus
      have hplain := (hserved hus.1).1 us hus
      refine converts_of_carved hus.1 (carved_of_framed hus.2.2 pkt.size_lt rfl hplain ?_)
      exact hplain.imp_right fun h3 => ⟨h3.1, fun _ => Int.dvd_zero 256⟩
    · intro hother
      by_cases hrw : Rewritten d pkt
      · obtain ⟨us, hcarved⟩ := (hserved hrw).2 hother
        obtain ⟨fuel, calls, d', hcall, hinside, -⟩ := converts_of_carved hrw hcarved
        exact ⟨fuel, calls, d', hcall, hinside⟩
      · exact staysInside_of_not_rewritten hrw

/-- Two units of one byte behind lengths of three. -/
def twoShortUnits : Packet where
  bytes := [0, 0, 1, 0xaa, 0, 0, 1, 0xbb]
  beyond _ := 0
  video := true
  key := true
  size_lt := by decide

/-- The second length is read as `0x01000001`, and that many bytes are handed over. -/
theorem second_unit_leaves_packet :
    LengthPrefixed ⟨true, false, false, 3⟩ twoShortUnits [[0xaa], [0xbb]] ∧
    demuxPacket 3 ⟨true, false, false, 3⟩ twoShortUnits =
      some ([.code [0, 0, 1], .range 3 1, .code [0, 0, 1], .range 7 16777217, .frameDone],
        ⟨true, false, true, 3⟩) ∧
    ¬ Handled ⟨true, false, false, 3⟩ twoShortUnits := by
  have hprefixed : LengthPrefixed ⟨true, false, false, 3⟩ twoShortUnits [[0xaa], [0xbb]] := by
    refine ⟨by unfold Rewritten; decide, .inl rfl, ?_⟩
    refine .unit 0 [0, 0, 1] [0xaa] [0, 0, 1, 0xbb] [[0xbb]] rfl rfl (by simp) ?_
    exact .unit 1 [0, 0, 1] [0xbb] [] [] rfl rfl (by simp) (.nil 1)
  refine ⟨hprefixed, by decide +kernel, ?_⟩
  intro hhandled
  rcases plain_of_converts hprefixed (hhandled.1 _ hprefixed) with h4 | ⟨-, hdvd⟩
  · cases h4
  · exact absurd (hdvd [0xaa] (by simp)) (by decide)

/-! ### Packets that are not units behind their lengths -/

theorem framed_of_carved_four {bytes : Bytes} {us : List Bytes} {p prev : Int}
    (h : Cut 4 carriedLength prev bytes us) (hsize : bytes.length < 2147483648)
    (hprev : int32 prev = prev) : Cut 4 ownLength p bytes us := by
  induction h generalizing p with
  | nil => exact .nil p
  | unit prev field u rest us hfield hlen hne hrest ih =>
    simp only [List.length_append] at hsize
    refine .unit p field u rest us hfield ?_ hne (ih (by omega) (int32_length (by omega)))
    rw [carriedLength_eq prev field hprev, hfield] at hlen
    have hlt := bigEndian_lt field
    rw [hfield] at hlt
    obtain ⟨k, hk⟩ := dvd_of_int32_eq hlen
    refine ownLength_eq_iff.mpr ?_
    omega

/-- With lengths of four bytes nothing but units behind their lengths is gone through safely. -/
theorem served_four_iff {d : Demuxer} (h4 : d.nalSize = 4) (pkt : Packet) :
    Served d pkt ↔ (Rewritten d pkt → ∃ us, Framed 4 pkt.bytes us) := by
  constructor
  · intro hserved hrw
    by_contra hnone
    have hother : ¬ ∃ us, LengthPrefixed d pkt us := by
      rintro ⟨us, -, -, hus⟩
      exact hnone ⟨us, h4 ▸ hus⟩
    obtain ⟨us, hus⟩ := (hserved hrw).2 hother
    rw [Carved, h4] at hus
    exact hnone ⟨us, framed_of_carved_four hus pkt.size_lt rfl⟩
  · intro hframed hrw
    obtain ⟨us, hus⟩ := hframed hrw
    refine ⟨fun _ _ => .inl h4, fun hother => absurd ?_ hother⟩
    exact ⟨us, hrw, .inr h4, by rw [h4]; exact hus⟩

/-- With no extradata the length stays 0 and the loop goes on for ever, unless there is nothing in
    the packet. -/
theorem served_zero_iff {d : Demuxer} (h0 : d.nalSize = 0) (pkt : Packet) :
    Served d pkt ↔ (Rewritten d pkt → pkt.bytes = []) := by
  have hother : ¬ ∃ us, LengthPrefixed d pkt us := by
    rintro ⟨us, -, hsize, -⟩
    omega
  constructor
  · intro hserved hrw
    obtain ⟨us, hus⟩ := (hserved hrw).2 hother
    rw [Carved, h0] at hus
    exact hus.eq_nil_of_zero (fun p => rfl) rfl
  · intro hnil hrw
    refine ⟨fun us hus => absurd ⟨us, hus⟩ hother, fun _ => ⟨[], ?_⟩⟩
    rw [hnil hrw]
    exact .nil 0

end Streambox.V4l2Dec.DemuxPackets
