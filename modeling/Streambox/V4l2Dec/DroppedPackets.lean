import Mathlib.Data.List.Infix
import Streambox.V4l2Dec.DemuxPackets
import Streambox.V4l2Dec.OutputPort

/-! demux.c and v4l2-dec.c together: what a packet that is dropped leaves in the decoder's buffers.

    The parser writes the codec header, and then one packet after the other; until it has seen a key
    frame it drops the packets that are none. A length-prefixed packet is dropped before anything of
    it is written. A raw one is written first.

        header   packet (dropped)   packet (key)   frame_done
        ──────   ────────────────   ────────────   ──────────
        write    write, return      write          queue: header, dropped, key

    The bytes stay in the current buffer, and the first call of `frame_done` queues them. -/

namespace Streambox.V4l2Dec.DroppedPackets
open Streambox.Lib Streambox.V4l2Dec.DemuxPackets Streambox.V4l2Dec.OutputPort

abbrev Bytes := List UInt8

/-- The output port of an H.264 or H.265 stream: a frame goes to secure memory as it is. -/
def esConfig (mode : MemMode) (bufNum : Nat) : Config := ⟨mode, bufNum, false, some⟩

/-- The demuxer, the calls that its thread still has to make (`none` is `frame_done`), and the port.
    For the account: `frames` are the packets that were not dropped, as they are handed over, and
    `submitted` what the buffers held that were queued. -/
structure System where
  demuxer : Demuxer
  script : List (Option Bytes)
  port : Port
  frames : List Bytes
  submitted : List Bytes

/-- `demux_packet` is called, or a thread goes on in the port. -/
inductive Event where
  | packet (fuel : Nat) (pkt : Packet)
  | port (a : Action)

/-- The bytes that calls hand over. -/
def scriptBytes (script : List (Option Bytes)) : Bytes := (script.filterMap id).flatten

/-- The calls that are left behind an action of the port; only the next one can be made. -/
def follow (script : List (Option Bytes)) : Action → Option (List (Option Bytes))
  | .writeEs data => if script.head? = some (some data) then some script.tail else none
  | .frameDone _ => if script.head? = some none then some script.tail else none
  | _ => some script

/-- The buffers that an action queues. -/
def queues (cfg : Config) (p : Port) : Action → List Bytes
  | .qbuf true => (p.cur.map (submitted cfg p)).toList
  | _ => []

def step (cfg : Config) (s : System) : Event → Option System
  | .packet fuel pkt =>
    if s.script = [] ∧ s.port.phase = .idle then
      (demuxPacket fuel s.demuxer pkt).map fun r =>
        { s with
          demuxer := r.2
          script := r.1.map pkt.content
          frames :=
            if none ∈ r.1.map pkt.content then s.frames ++ [scriptBytes (r.1.map pkt.content)]
            else s.frames }
    else none
  | .port a =>
    (follow s.script a).bind fun script =>
      (OutputPort.step cfg s.port a).map fun port =>
        { s with script, port, submitted := s.submitted ++ queues cfg s.port a }

/-- The start of a stream: the codec header, if there is one, is to be written. -/
def start (d : Demuxer) (header : Option Bytes) (port : Port) : System where
  demuxer := d
  script := (header.map some).toList
  port := port
  frames := []
  submitted := []

/-- What the buffers should hold: the first frame behind the codec header, and then one each. -/
def expected (header : Option Bytes) : List Bytes → List Bytes
  | [] => []
  | f :: fs => (header.getD [] ++ f) :: fs

/-- There is room for the bytes that are being written. -/
def roomFor (cfg : Config) (p : Port) : Bool :=
  match p.phase, p.cur with
  | .writing data, some i => (p.buf i).used + data.length ≤ (memory cfg p i).length
  | _, _ => true

/-- The steps that keep the account: a packet of a raw stream that is dropped is empty, and one that
    is not dropped has bytes; bytes that are written have room; and the port's own steps are
    permitted. -/
def allowed (cfg : Config) (s : System) : Event → Bool
  | .packet _ pkt =>
    !pkt.video ||
      (if s.demuxer.drops pkt then !s.demuxer.rawStream || pkt.bytes.isEmpty
      else !pkt.bytes.isEmpty)
  | .port a => permitted cfg s.port a && (a != .copy || roomFor cfg s.port)

/-! ### What the port's actions do to the parser's part of it -/

section effects
variable {cfg : Config} {p p' : Port}

theorem writeEs_effect {data : Bytes} (h : OutputPort.step cfg p (.writeEs data) = some p') :
    p.phase = .idle ∧ p'.written = p.written ∧ p'.quit = p.quit ∧
      (p'.phase = .writing data ∨ p.quit = true ∧ p'.phase = .idle) := by
  rw [OutputPort.step] at h
  split at h
  case isFalse => cases h
  case isTrue hidle =>
    refine ⟨hidle, ?_⟩
    split at h
    case h_1 =>
      cases h
      exact ⟨rfl, rfl, .inl rfl⟩
    case h_2 =>
      split at h
      case h_1 =>
        cases h
        exact ⟨rfl, rfl, .inl rfl⟩
      case h_2 =>
        split at h
        case isTrue hquit =>
          cases h
          exact ⟨rfl, rfl, .inr ⟨hquit, hidle⟩⟩
        case isFalse => cases h

theorem copy_effect (h : OutputPort.step cfg p .copy = some p') (hroom : roomFor cfg p = true) :
    ∃ data, p.phase = .writing data ∧ p'.phase = .idle ∧ p'.written = p.written ++ data ∧
      p'.quit = p.quit := by
  rw [OutputPort.step] at h
  split at h
  case h_2 => cases h
  case h_1 data i hphase hcur =>
    cases h
    have hle : (p.buf i).used + data.length ≤ (memory cfg p i).length := by
      simpa [roomFor, hphase, hcur] using hroom
    rw [writeData, if_neg (by omega)]
    exact ⟨data, hphase, rfl, rfl, rfl⟩

/-- `frame_done` goes on to queue the frame, or there is none, or the program quits. -/
theorem frameDone_effect {allocOk : Bool} (hinv : Inv cfg p)
    (hok : permitted cfg p (.frameDone allocOk) = true)
    (h : OutputPort.step cfg p (.frameDone allocOk) = some p') :
    p.phase = .idle ∧ p'.quit = p.quit ∧
      (p'.phase = .marking ∧ p'.written = p.written ∧ p.quit = false ∨
        p'.phase = .idle ∧ p'.written = [] ∧ (p.quit = true ∨ p.written = [])) := by
  rw [OutputPort.step] at h
  split at h
  case isFalse => cases h
  case isTrue hidle =>
    refine ⟨hidle, ?_⟩
    split at h
    case h_1 hcur =>
      cases h
      exact ⟨rfl, .inr ⟨rfl, rfl, .inr (hinv.fresh (hinv.closed hcur).1)⟩⟩
    case h_2 i hcur =>
      split at h
      case isTrue hquit =>
        cases h
        exact ⟨rfl, .inr ⟨rfl, rfl, .inl hquit⟩⟩
      case isFalse hquit =>
        split at h
        case h_1 hnone =>
          cases h
          have hzero := permitted_fails hcur hok hnone
          have hlen := (hinv.opened i hcur (hinv.not_early hcur (by simp [hidle]))).1
          refine ⟨rfl, .inr ⟨rfl, rfl, .inr ?_⟩⟩
          exact List.length_eq_zero_iff.mp (hlen.symm.trans hzero)
        case h_2 =>
          cases h
          exact ⟨rfl, .inl ⟨rfl, rfl, by simpa using hquit⟩⟩

theorem mark_effect (h : OutputPort.step cfg p .mark = some p') :
    p.phase = .marking ∧ p'.phase = .queuing ∧ p'.written = p.written ∧ p'.quit = p.quit := by
  rw [OutputPort.step] at h
  split at h
  case h_2 => cases h
  case h_1 hphase hcur =>
    cases h
    exact ⟨hphase, rfl, rfl, rfl⟩

/-- A frame that is queued is in its buffer. -/
theorem qbuf_effect {mode : MemMode} {n : Nat} (hinv : Inv (esConfig mode n) p)
    (h : OutputPort.step (esConfig mode n) p (.qbuf true) = some p') :
    p.phase = .queuing ∧ p'.phase = .idle ∧ p'.written = [] ∧ p'.quit = p.quit ∧
      queues (esConfig mode n) p (.qbuf true) = [p.written] := by
  rw [OutputPort.step] at h
  split at h
  case h_2 => cases h
  case h_1 i hphase hcur =>
    cases h
    refine ⟨hphase, rfl, rfl, rfl, ?_⟩
    have hsubmits := hinv.prepared i hcur (.inr hphase)
    rw [queues, hcur, Option.map_some, hsubmits.1]
    rfl

/-- The decoder thread leaves the parser's part alone. -/
theorem decoder_effect {a : Action} (ha : (∃ i, a = .dequeue i) ∨ a = .clear ∨ a = .reset)
    (h : OutputPort.step cfg p a = some p') :
    p'.phase = p.phase ∧ p'.written = p.written ∧ p'.quit = p.quit := by
  rcases ha with ⟨i, rfl⟩ | rfl | rfl
  · rw [OutputPort.step] at h
    split at h
    · cases h
      exact ⟨rfl, rfl, rfl⟩
    · cases h
  · rw [OutputPort.step] at h
    split at h
    · cases h
      exact ⟨rfl, rfl, rfl⟩
    · cases h
  · rw [OutputPort.step] at h
    split at h
    · cases h
      exact ⟨rfl, rfl, rfl⟩
    · cases h

end effects

/-! ### The calls for a packet -/

section calls
variable {d d' : Demuxer} {pkt : Packet} {fuel : Nat} {calls : List Call}

theorem startCode_ne_nil (L : Nat) : startCode L ≠ [] := by
  rw [startCode]
  split <;> simp

/-- The loop writes, and it writes something if it turns at all. -/
theorem loop_contents {L : Nat} {off processed n : Int}
    (h : loop pkt L fuel off processed n = some calls) :
    ∃ ws : List Bytes, calls.map pkt.content = ws.map some ∧
      (processed < pkt.bytes.length → ws.flatten ≠ []) := by
  induction fuel generalizing off processed n calls with
  | zero => cases h
  | succ fuel ih =>
    rw [loop] at h
    split at h
    next hturn =>
      obtain ⟨rest, hrest, rfl⟩ := Option.map_eq_some_iff.mp h
      obtain ⟨ws, hws, -⟩ := ih hrest
      refine ⟨startCode L :: ((List.range (readLength pkt L off n).toNat).map fun i : Nat =>
        pkt.byteAt (off + L + i)) :: ws, ?_, fun _ => ?_⟩
      · rw [List.map_cons, List.map_cons, hws]
        rfl
      · simp [startCode_ne_nil L]
    next hturn =>
      obtain rfl := Option.some.inj h
      exact ⟨[], rfl, fun hlt => absurd hlt hturn⟩

theorem content_whole (pkt : Packet) :
    pkt.content (.range 0 pkt.bytes.length) = some pkt.bytes := by
  have hpkt : pkt.bytes = [] ++ (pkt.bytes ++ []) := by simp
  exact content_range hpkt

/-- A packet that is not dropped: writes, and then `frame_done`. -/
theorem contents_of_kept (hcodec : d.h2645 = true) (hvideo : pkt.video = true)
    (hkept : d.drops pkt = false) (h : demuxPacket fuel d pkt = some (calls, d')) :
    ∃ ws : List Bytes, calls.map pkt.content = ws.map some ++ [none] ∧
      (pkt.bytes ≠ [] → ws.flatten ≠ []) := by
  simp only [demuxPacket, hvideo, hcodec, hkept] at h
  obtain ⟨rest, hrest, heq⟩ := Option.map_eq_some_iff.mp h
  obtain ⟨rfl, -⟩ := Prod.mk.inj heq
  obtain ⟨ws, hws, hne⟩ := loop_contents hrest
  cases hraw : d.rawStream with
  | true =>
    refine ⟨pkt.bytes :: ws, ?_, fun h => by simp [h]⟩
    simp only [if_true, List.map_append, List.map_cons, List.map_nil, content_whole, hws]
    rfl
  | false =>
    refine ⟨ws, ?_, fun hbytes => hne ?_⟩
    · simp [hws, Packet.content]
    · have hpos := List.length_pos_iff.mpr hbytes
      simp only [hraw]
      simpa using hpos

/-- A packet that is dropped: nothing, or the packet if the stream is raw. -/
theorem contents_of_dropped (hcodec : d.h2645 = true) (hvideo : pkt.video = true)
    (hdrop : d.drops pkt = true) (h : demuxPacket fuel d pkt = some (calls, d')) :
    calls.map pkt.content = (if d.rawStream then [some pkt.bytes] else []) ∧ d' = d := by
  simp only [demuxPacket, hvideo, hcodec, hdrop] at h
  obtain ⟨rfl, rfl⟩ := Prod.mk.inj (Option.some.inj h)
  cases hraw : d.rawStream with
  | true => exact ⟨by simp [content_whole], rfl⟩
  | false => exact ⟨by simp, rfl⟩

theorem calls_of_other (hvideo : pkt.video = false)
    (h : demuxPacket fuel d pkt = some (calls, d')) : calls = [] ∧ d' = d := by
  simp only [demuxPacket, hvideo] at h
  obtain ⟨rfl, rfl⟩ := Prod.mk.inj (Option.some.inj h)
  exact ⟨rfl, rfl⟩

theorem codec_kept (h : demuxPacket fuel d pkt = some (calls, d')) :
    d'.h2645 = d.h2645 ∧ d'.rawStream = d.rawStream := by
  rw [demuxPacket] at h
  split at h
  · obtain ⟨-, rfl⟩ := Prod.mk.inj (Option.some.inj h)
    exact ⟨rfl, rfl⟩
  · split at h
    · simp only at h
      split at h
      · obtain ⟨-, rfl⟩ := Prod.mk.inj (Option.some.inj h)
        exact ⟨rfl, rfl⟩
      · obtain ⟨rest, -, heq⟩ := Option.map_eq_some_iff.mp h
        obtain ⟨-, rfl⟩ := Prod.mk.inj heq
        exact ⟨rfl, rfl⟩
    · obtain ⟨-, rfl⟩ := Prod.mk.inj (Option.some.inj h)
      exact ⟨rfl, rfl⟩

end calls

/-! ### The account -/

/-- The bytes of a call of `write_es` that has not copied yet. -/
def inFlight : Phase → Bytes
  | .writing data => data
  | _ => []

/-- The bytes since the last call of `frame_done`: written, being written, and still to come. -/
def pending (s : System) : Bytes := s.port.written ++ inFlight s.port.phase ++ scriptBytes s.script

/-- The invariant: what has been submitted is as expected so far. While a frame is written or queued
    its bytes are all that is missing; between two frames nothing is, and nothing but the codec
    header is in the buffer. -/
structure Ledger (cfg : Config) (header : Option Bytes) (s : System) : Prop where
  codec : s.demuxer.h2645 = true
  port : Inv cfg s.port
  shape : ∃ ws : List Bytes, s.script = ws.map some ∨ s.script = ws.map some ++ [none]
  so_far : s.submitted <+: expected header s.frames
  queued : s.port.phase = .marking ∨ s.port.phase = .queuing →
    s.script = [] ∧ expected header s.frames = s.submitted ++ [s.port.written]
  opened : s.port.quit = false → none ∈ s.script →
    expected header s.frames = s.submitted ++ [pending s] ∧ pending s ≠ []
  between : s.port.quit = false → none ∉ s.script →
    s.port.phase ≠ .marking → s.port.phase ≠ .queuing →
    expected header s.frames = s.submitted ∧
      pending s = if s.frames = [] then header.getD [] else []

theorem start_ledger (cfg : Config) (header : Option Bytes) (d : Demuxer) (hd : d.h2645 = true)
    (vaddr : Nat → Bytes) (esBuf : Bytes) :
    Ledger cfg header (start d header (OutputPort.start vaddr esBuf)) where
  codec := hd
  port := start_inv cfg vaddr esBuf
  shape := ⟨header.toList, .inl (by cases header <;> rfl)⟩
  so_far := List.prefix_rfl
  queued h := by rcases h with h | h <;> cases h
  opened _ h := by cases header <;> simp [start] at h
  between _ _ _ _ := by
    refine ⟨rfl, ?_⟩
    cases header <;> simp [pending, start, OutputPort.start, inFlight, scriptBytes]

theorem scriptBytes_done (ws : List Bytes) : scriptBytes (ws.map some ++ [none]) = ws.flatten := by
  simp [scriptBytes]

theorem expected_concat (header : Option Bytes) (fs : List Bytes) (f : Bytes) :
    expected header (fs ++ [f]) =
      expected header fs ++ [(if fs = [] then header.getD [] else []) ++ f] := by
  cases fs with
  | nil => rfl
  | cons g gs => simp [expected]

section steps
variable {mode : MemMode} {n : Nat} {header : Option Bytes} {s s' : System}

/-- A packet for which no byte is handed over and no frame is done. -/
theorem silent_ledger (h : Ledger (esConfig mode n) header s) (hscript : s.script = [])
    (hidle : s.port.phase = .idle) {d' : Demuxer} (hd' : d'.h2645 = true) (ws : List Bytes)
    (hempty : ws.flatten = []) :
    Ledger (esConfig mode n) header { s with demuxer := d', script := ws.map some } := by
  have hphase : ¬ (s.port.phase = .marking ∨ s.port.phase = .queuing) := by simp [hidle]
  refine ⟨hd', h.port, ⟨ws, .inl rfl⟩, h.so_far, fun hq => absurd hq hphase, ?_, ?_⟩
  · intro _ hmem
    simp at hmem
  · intro hquit _ hm hq
    obtain ⟨hexp, hpend⟩ := h.between hquit (by simp [hscript]) hm hq
    refine ⟨hexp, ?_⟩
    rw [← hpend]
    simp [pending, hempty, hscript, scriptBytes]

/-- A packet that is handed over: its bytes are what is missing now. -/
theorem frame_ledger (h : Ledger (esConfig mode n) header s) (hscript : s.script = [])
    (hidle : s.port.phase = .idle) {d' : Demuxer} (hd' : d'.h2645 = true) {ws : List Bytes}
    (hne : ws.flatten ≠ []) :
    Ledger (esConfig mode n) header
      { s with
        demuxer := d'
        script := ws.map some ++ [none]
        frames := s.frames ++ [ws.flatten] } := by
  have hphase : ¬ (s.port.phase = .marking ∨ s.port.phase = .queuing) := by simp [hidle]
  refine ⟨hd', h.port, ⟨ws, .inr rfl⟩, ?_, fun hq => absurd hq hphase, ?_, ?_⟩
  · rw [expected_concat]
    exact h.so_far.trans (List.prefix_append _ _)
  · intro hquit _
    obtain ⟨hexp, hpend⟩ := h.between hquit (by simp [hscript]) (by simp [hidle]) (by simp [hidle])
    have hwritten : s.port.written = if s.frames = [] then header.getD [] else [] := by
      rw [← hpend]
      simp [pending, hscript, hidle, inFlight, scriptBytes]
    have hall : pending { s with
        demuxer := d'
        script := ws.map some ++ [none]
        frames := s.frames ++ [ws.flatten] } =
        (if s.frames = [] then header.getD [] else []) ++ ws.flatten := by
      simp [pending, hidle, inFlight, scriptBytes_done, hwritten]
    rw [hall, expected_concat, hexp]
    exact ⟨rfl, fun hnil => hne (List.append_eq_nil_iff.mp hnil).2⟩
  · intro _ hmem
    simp at hmem

theorem packet_ledger {fuel : Nat} {pkt : Packet} (h : Ledger (esConfig mode n) header s)
    (hok : allowed (esConfig mode n) s (.packet fuel pkt) = true)
    (hstep : step (esConfig mode n) s (.packet fuel pkt) = some s') :
    Ledger (esConfig mode n) header s' := by
  rw [step] at hstep
  split at hstep
  case isFalse => cases hstep
  case isTrue hready =>
    obtain ⟨hscript, hidle⟩ := hready
    obtain ⟨r, hcall, rfl⟩ := Option.map_eq_some_iff.mp hstep
    obtain ⟨calls, d'⟩ := r
    have hcodec := (codec_kept hcall).1.trans h.codec
    cases hvideo : pkt.video with
    | false =>
      obtain ⟨rfl, -⟩ := calls_of_other hvideo hcall
      exact silent_ledger h hscript hidle hcodec [] rfl
    | true =>
      cases hdrop : s.demuxer.drops pkt with
      | true =>
        obtain ⟨hcontents, -⟩ := contents_of_dropped h.codec hvideo hdrop hcall
        cases hraw : s.demuxer.rawStream with
        | false =>
          rw [hraw] at hcontents
          simp only [hcontents]
          exact silent_ledger h hscript hidle hcodec [] rfl
        | true =>
          have hbytes : pkt.bytes = [] := by simpa [allowed, hvideo, hdrop, hraw] using hok
          rw [hraw, hbytes] at hcontents
          simp only [hcontents]
          exact silent_ledger h hscript hidle hcodec [[]] rfl
      | false =>
        have hbytes : pkt.bytes ≠ [] := by simpa [allowed, hvideo, hdrop] using hok
        obtain ⟨ws, hcontents, hne⟩ := contents_of_kept h.codec hvideo hdrop hcall
        simp only [hcontents, scriptBytes_done]
        rw [if_pos (by simp)]
        exact frame_ledger h hscript hidle hcodec (hne hbytes)

/-- The parser takes the next piece: it is on its way to the buffer, or the program quits. -/
theorem writeEs_ledger {data : Bytes} {p' : Port} {tail : List (Option Bytes)}
    (h : Ledger (esConfig mode n) header s) (hscript : s.script = some data :: tail)
    (hport : OutputPort.step (esConfig mode n) s.port (.writeEs data) = some p')
    (hinv : Inv (esConfig mode n) p') :
    Ledger (esConfig mode n) header { s with script := tail, port := p' } := by
  obtain ⟨hidle, hwritten, hquit, hphase⟩ := writeEs_effect hport
  have hnot : p'.phase ≠ .marking ∧ p'.phase ≠ .queuing := by
    rcases hphase with hphase | ⟨-, hphase⟩ <;> simp [hphase]
  have hmem : none ∈ s.script ↔ none ∈ tail := by simp [hscript]
  -- while the program runs the pieces are only handed on
  have hpend : p'.quit = false → pending { s with script := tail, port := p' } = pending s := by
    intro hq
    rcases hphase with hphase | ⟨hquit', -⟩
    · simp [pending, hphase, hidle, inFlight, hwritten, hscript, scriptBytes]
    · rw [hquit, hquit'] at hq
      cases hq
  refine ⟨h.codec, hinv, ?_, h.so_far, ?_, ?_, ?_⟩
  · obtain ⟨ws, hws | hws⟩ := h.shape
    · cases ws with
      | nil => simp [hscript] at hws
      | cons w ws =>
        rw [hscript] at hws
        exact ⟨ws, .inl (List.cons.inj hws).2⟩
    · cases ws with
      | nil => simp [hscript] at hws
      | cons w ws =>
        rw [hscript] at hws
        exact ⟨ws, .inr (List.cons.inj hws).2⟩
  · rintro (hq | hq)
    · exact absurd hq hnot.1
    · exact absurd hq hnot.2
  · intro hq hopen
    rw [hpend hq]
    exact h.opened (hquit ▸ hq) (hmem.mpr hopen)
  · intro hq hclosed _ _
    rw [hpend hq]
    exact h.between (hquit ▸ hq) (fun hm => hclosed (hmem.mp hm)) (by simp [hidle])
      (by simp [hidle])

/-- The end of a frame: it is queued next, unless the program quits. -/
theorem frameDone_ledger {allocOk : Bool} {p' : Port} {tail : List (Option Bytes)}
    (h : Ledger (esConfig mode n) header s) (hscript : s.script = none :: tail)
    (hok : permitted (esConfig mode n) s.port (.frameDone allocOk) = true)
    (hport : OutputPort.step (esConfig mode n) s.port (.frameDone allocOk) = some p')
    (hinv : Inv (esConfig mode n) p') :
    Ledger (esConfig mode n) header { s with script := tail, port := p' } := by
  obtain ⟨hidle, hquit, hnext⟩ := frameDone_effect h.port hok hport
  have htail : tail = [] := by
    obtain ⟨ws, hws | hws⟩ := h.shape
    · cases ws <;> simp [hscript] at hws
    · cases ws with
      | nil =>
        rw [hscript] at hws
        exact (List.cons.inj hws).2
      | cons w ws => simp [hscript] at hws
  have hpend : pending s = s.port.written := by
    simp [pending, hidle, inFlight, hscript, htail, scriptBytes]
  have hopen := fun hq => h.opened hq (by simp [hscript])
  rw [hpend] at hopen
  subst htail
  rcases hnext with ⟨hphase, hwritten, hrunning⟩ | ⟨hphase, hwritten, hstopped⟩
  · refine ⟨h.codec, hinv, ⟨[], .inl rfl⟩, h.so_far, ?_, ?_, ?_⟩
    · intro _
      refine ⟨rfl, ?_⟩
      rw [hwritten]
      exact (hopen hrunning).1
    · intro _ hmem
      cases hmem
    · intro _ _ hm
      exact absurd hphase hm
  · -- a frame that is not queued can only be one of a program that quits
    have hquits : s.port.quit = true := by
      rcases hstopped with hq | hempty
      · exact hq
      · by_contra hq
        exact (hopen (by simpa using hq)).2 hempty
    have hnever : p'.quit = false → False := by
      intro hq
      rw [hquit, hquits] at hq
      cases hq
    refine ⟨h.codec, hinv, ⟨[], .inl rfl⟩, h.so_far, ?_, ?_, ?_⟩
    · rintro (hq | hq) <;> simp [hphase] at hq
    · intro hq
      exact absurd hq (by simpa using hnever)
    · intro hq
      exact absurd hq (by simpa using hnever)

/-- A frame is queued: it is the one that was missing. -/
theorem qbuf_ledger {p' : Port} (h : Ledger (esConfig mode n) header s)
    (hport : OutputPort.step (esConfig mode n) s.port (.qbuf true) = some p')
    (hinv : Inv (esConfig mode n) p') :
    Ledger (esConfig mode n) header
      { s with
        port := p'
        submitted := s.submitted ++ queues (esConfig mode n) s.port (.qbuf true) } := by
  obtain ⟨hqueuing, hphase, hwritten, hquit, hqueues⟩ := qbuf_effect h.port hport
  obtain ⟨hscript, hexp⟩ := h.queued (.inr hqueuing)
  have hne : s.frames ≠ [] := by
    intro hnil
    rw [hnil] at hexp
    simp [expected] at hexp
  rw [hqueues, ← hexp]
  refine ⟨h.codec, hinv, h.shape, List.prefix_rfl, ?_, ?_, ?_⟩
  · rintro (hq | hq) <;> simp [hphase] at hq
  · intro _ hmem
    simp [hscript] at hmem
  · intro _ _ _ _
    refine ⟨rfl, ?_⟩
    simp [pending, hwritten, hphase, inFlight, hscript, scriptBytes, hne]

/-- A step that moves bytes on within the parser, or none of its own. -/
theorem same_ledger {p' : Port} (h : Ledger (esConfig mode n) header s)
    (hinv : Inv (esConfig mode n) p')
    (hbytes : p'.written ++ inFlight p'.phase = s.port.written ++ inFlight s.port.phase)
    (hquit : p'.quit = false → s.port.quit = false)
    (hqueued : p'.phase = .marking ∨ p'.phase = .queuing ↔
      s.port.phase = .marking ∨ s.port.phase = .queuing)
    (hwritten : p'.phase = .marking ∨ p'.phase = .queuing → p'.written = s.port.written) :
    Ledger (esConfig mode n) header { s with port := p' } := by
  have hpend : pending { s with port := p' } = pending s := by
    rw [pending, pending, hbytes]
  refine ⟨h.codec, hinv, h.shape, h.so_far, ?_, ?_, ?_⟩
  · intro hq
    obtain ⟨hscript, hexp⟩ := h.queued (hqueued.mp hq)
    exact ⟨hscript, by rw [hwritten hq]; exact hexp⟩
  · intro hq hmem
    rw [hpend]
    exact h.opened (hquit hq) hmem
  · intro hq hmem hm hqu
    rw [hpend]
    have hnot : ¬ (s.port.phase = .marking ∨ s.port.phase = .queuing) :=
      fun hold => (hqueued.mpr hold).elim hm hqu
    exact h.between (hquit hq) hmem (fun h' => hnot (.inl h')) fun h' => hnot (.inr h')

theorem port_ledger {a : Action} (h : Ledger (esConfig mode n) header s)
    (hok : allowed (esConfig mode n) s (.port a) = true)
    (hstep : step (esConfig mode n) s (.port a) = some s') :
    Ledger (esConfig mode n) header s' := by
  obtain ⟨hperm, hcopy⟩ := Bool.and_eq_true_iff.mp hok
  obtain ⟨script, hfollow, hrest⟩ := Option.bind_eq_some_iff.mp hstep
  obtain ⟨p', hport, rfl⟩ := Option.map_eq_some_iff.mp hrest
  have hinv : Inv (esConfig mode n) p' := step_inv h.port hperm hport
  cases a with
  | writeEs data =>
    simp only [follow] at hfollow
    split at hfollow
    · next hhead =>
      obtain rfl := Option.some.inj hfollow
      have hscript := (List.cons_head?_tail hhead).symm
      simpa [queues] using writeEs_ledger h hscript hport hinv
    · cases hfollow
  | frameDone allocOk =>
    simp only [follow] at hfollow
    split at hfollow
    · next hhead =>
      obtain rfl := Option.some.inj hfollow
      have hscript := (List.cons_head?_tail hhead).symm
      simpa [queues] using frameDone_ledger h hscript hperm hport hinv
    · cases hfollow
  | copy =>
    obtain rfl := Option.some.inj hfollow
    have hroom : roomFor (esConfig mode n) s.port = true := by simpa using hcopy
    obtain ⟨data, hwriting, hphase, hwritten, hquit⟩ := copy_effect hport hroom
    simpa [queues] using same_ledger h hinv (by simp [hwriting, hphase, hwritten, inFlight])
      (hquit ▸ id) (by simp [hwriting, hphase]) (by simp [hphase])
  | mark =>
    obtain rfl := Option.some.inj hfollow
    obtain ⟨hmarking, hphase, hwritten, hquit⟩ := mark_effect hport
    simpa [queues] using same_ledger h hinv (by simp [hmarking, hphase, hwritten, inFlight])
      (hquit ▸ id) (by simp [hmarking, hphase]) (fun _ => hwritten)
  | qbuf ok =>
    obtain rfl := Option.some.inj hfollow
    cases ok with
    | false => cases hperm
    | true => exact qbuf_ledger h hport hinv
  | dequeue i =>
    obtain rfl := Option.some.inj hfollow
    obtain ⟨hphase, hwritten, hquit⟩ := decoder_effect (.inl ⟨i, rfl⟩) hport
    simpa [queues] using same_ledger h hinv (by rw [hphase, hwritten]) (hquit ▸ id)
      (by rw [hphase]) (fun _ => hwritten)
  | clear =>
    obtain rfl := Option.some.inj hfollow
    obtain ⟨hphase, hwritten, hquit⟩ := decoder_effect (.inr (.inl rfl)) hport
    simpa [queues] using same_ledger h hinv (by rw [hphase, hwritten]) (hquit ▸ id)
      (by rw [hphase]) (fun _ => hwritten)
  | reset =>
    obtain rfl := Option.some.inj hfollow
    obtain ⟨hphase, hwritten, hquit⟩ := decoder_effect (.inr (.inr rfl)) hport
    simpa [queues] using same_ledger h hinv (by rw [hphase, hwritten]) (hquit ▸ id)
      (by rw [hphase]) (fun _ => hwritten)
  | quitThread =>
    obtain rfl := Option.some.inj hfollow
    cases hport
    simpa [queues] using same_ledger h hinv rfl (fun hq => by cases hq) Iff.rfl (fun _ => rfl)

theorem step_ledger {e : Event} (h : Ledger (esConfig mode n) header s)
    (hok : allowed (esConfig mode n) s e = true) (hstep : step (esConfig mode n) s e = some s') :
    Ledger (esConfig mode n) header s' := by
  cases e with
  | packet fuel pkt => exact packet_ledger h hok hstep
  | port a => exact port_ledger h hok hstep

end steps

/-! ### Runs -/

/-- The bytes that are handed over for a packet. -/
def frameBytes (fuel : Nat) (d : Demuxer) (pkt : Packet) : Bytes :=
  ((demuxPacket fuel d pkt).map fun r => scriptBytes (r.1.map pkt.content)).getD []

/-- The packets of a run that are not dropped, as they are handed over. -/
def framesOf (d : Demuxer) : List Event → List Bytes
  | [] => []
  | .packet fuel pkt :: events =>
    match demuxPacket fuel d pkt with
    | none => []
    | some r =>
      (if none ∈ r.1.map pkt.content then [scriptBytes (r.1.map pkt.content)] else []) ++
        framesOf r.2 events
  | .port _ :: events => framesOf d events

/-- The first key frame of a run. -/
def firstKey : List Event → Option (Nat × Packet)
  | [] => none
  | .packet fuel pkt :: events =>
    if pkt.video && pkt.key then some (fuel, pkt) else firstKey events
  | .port _ :: events => firstKey events

/-- A run without the packets that are dropped in it. -/
def withoutDropped (seen : Bool) : List Event → List Event
  | [] => []
  | .packet fuel pkt :: events =>
    if pkt.video && !seen && !pkt.key then withoutDropped seen events
    else .packet fuel pkt :: withoutDropped (seen || (pkt.video && pkt.key)) events
  | .port a :: events => .port a :: withoutDropped seen events

section runs
variable {cfg : Config} {s t : System} {events : List Event}

/-- What a packet does to the system. -/
theorem packet_step {fuel : Nat} {pkt : Packet} (h : step cfg s (.packet fuel pkt) = some t) :
    s.script = [] ∧ ∃ calls d', demuxPacket fuel s.demuxer pkt = some (calls, d') ∧
      t = { s with
        demuxer := d'
        script := calls.map pkt.content
        frames :=
          if none ∈ calls.map pkt.content then s.frames ++ [scriptBytes (calls.map pkt.content)]
          else s.frames } := by
  rw [step] at h
  split at h
  next hready =>
    obtain ⟨⟨calls, d'⟩, hcall, rfl⟩ := Option.map_eq_some_iff.mp h
    exact ⟨hready.1, calls, d', hcall, rfl⟩
  next => cases h

theorem port_step {a : Action} (h : step cfg s (.port a) = some t) :
    t.demuxer = s.demuxer ∧ t.frames = s.frames := by
  obtain ⟨script, -, hrest⟩ := Option.bind_eq_some_iff.mp h
  obtain ⟨port, -, rfl⟩ := Option.map_eq_some_iff.mp hrest
  exact ⟨rfl, rfl⟩

theorem frames_eq (h : run (step cfg) s events = some t) :
    t.frames = s.frames ++ framesOf s.demuxer events := by
  induction events generalizing s with
  | nil =>
    cases h
    simp [framesOf]
  | cons e events ih =>
    obtain ⟨s', hstep, hrest⟩ := run_cons.mp h
    rw [ih hrest]
    cases e with
    | packet fuel pkt =>
      obtain ⟨-, calls, d', hcall, rfl⟩ := packet_step hstep
      simp only [framesOf, hcall]
      split <;> simp
    | port a =>
      obtain ⟨hdemuxer, hframes⟩ := port_step hstep
      rw [hdemuxer, hframes, framesOf]

/-- Whether a key frame has been seen behind a packet. -/
theorem keyframeSeen_eq {fuel : Nat} {d d' : Demuxer} {pkt : Packet} {calls : List Call}
    (hcodec : d.h2645 = true) (h : demuxPacket fuel d pkt = some (calls, d')) :
    d'.keyframeSeen = (d.keyframeSeen || (pkt.video && pkt.key)) := by
  cases hvideo : pkt.video with
  | false =>
    obtain ⟨-, rfl⟩ := calls_of_other hvideo h
    simp
  | true =>
    cases hdrop : d.drops pkt with
    | true =>
      obtain ⟨-, rfl⟩ := contents_of_dropped hcodec hvideo hdrop h
      have hkey : pkt.key = false := by
        simp only [Demuxer.drops, Bool.and_eq_true, Bool.not_eq_true'] at hdrop
        exact hdrop.2
      simp [hkey]
    | false =>
      simp only [demuxPacket, hvideo, hcodec, hdrop] at h
      obtain ⟨rest, -, heq⟩ := Option.map_eq_some_iff.mp h
      obtain ⟨-, rfl⟩ := Prod.mk.inj heq
      rfl

/-- The first packet that is handed over is the first key frame. -/
theorem head_framesOf {d : Demuxer} (hcodec : d.h2645 = true) (hseen : d.keyframeSeen = false)
    (hd : s.demuxer = d) (h : run (step cfg) s events = some t) :
    (framesOf d events).head? = (firstKey events).map fun k => frameBytes k.1 d k.2 := by
  induction events generalizing s with
  | nil => rfl
  | cons e events ih =>
    obtain ⟨s', hstep, hrest⟩ := run_cons.mp h
    cases e with
    | port a => exact ih ((port_step hstep).1.trans hd) hrest
    | packet fuel pkt =>
      obtain ⟨-, calls, d', hcall, rfl⟩ := packet_step hstep
      rw [hd] at hcall
      simp only [framesOf, hcall, firstKey]
      cases hvideo : pkt.video with
      | false =>
        obtain ⟨rfl, rfl⟩ := calls_of_other hvideo hcall
        simpa using ih rfl hrest
      | true =>
        cases hkey : pkt.key with
        | false =>
          have hdrop : d.drops pkt = true := by simp [Demuxer.drops, hseen, hkey]
          obtain ⟨hcontents, rfl⟩ := contents_of_dropped hcodec hvideo hdrop hcall
          have hnone : none ∉ calls.map pkt.content := by
            rw [hcontents]
            split <;> simp
          rw [if_neg hnone]
          exact ih rfl hrest
        | true =>
          have hkept : d.drops pkt = false := by simp [Demuxer.drops, hkey]
          obtain ⟨ws, hcontents, -⟩ := contents_of_kept hcodec hvideo hkept hcall
          simp [frameBytes, hcall, hcontents]

/-- In a length-prefixed stream a packet that is dropped changes nothing at all. -/
theorem run_withoutDropped (hcodec : s.demuxer.h2645 = true) (hraw : s.demuxer.rawStream = false)
    (h : run (step cfg) s events = some t) :
    run (step cfg) s (withoutDropped s.demuxer.keyframeSeen events) = some t := by
  induction events generalizing s with
  | nil => exact h
  | cons e events ih =>
    obtain ⟨s', hstep, hrest⟩ := run_cons.mp h
    cases e with
    | port a =>
      have hd := (port_step hstep).1
      rw [withoutDropped]
      refine run_cons.mpr ⟨s', hstep, ?_⟩
      rw [← hd]
      exact ih (by rw [hd, hcodec]) (by rw [hd, hraw]) hrest
    | packet fuel pkt =>
      obtain ⟨hscript, calls, d', hcall, hs'⟩ := packet_step hstep
      obtain ⟨hcodec', hraw'⟩ := codec_kept hcall
      have hseen := keyframeSeen_eq hcodec hcall
      have hd' : s'.demuxer = d' := by rw [hs']
      have hnext := ih (by rw [hd', hcodec', hcodec]) (by rw [hd', hraw', hraw]) hrest
      rw [hd', hseen] at hnext
      rw [withoutDropped]
      split
      next hdropped =>
        simp only [Bool.and_eq_true, Bool.not_eq_true'] at hdropped
        obtain ⟨⟨hvideo, hunseen⟩, hkey⟩ := hdropped
        have hdrop : s.demuxer.drops pkt = true := by simp [Demuxer.drops, hunseen, hkey]
        obtain ⟨hcontents, rfl⟩ := contents_of_dropped hcodec hvideo hdrop hcall
        have hnil : calls.map pkt.content = s.script := by
          rw [hcontents, hraw, hscript]
          rfl
        have hsame : s' = s := by
          rw [hs', hnil, if_neg (by simp [hscript])]
        rw [hsame, hkey, Bool.and_false, Bool.or_false] at hnext
        exact hnext
      next => exact run_cons.mpr ⟨s', hstep, hnext⟩

end runs

/-- In every run of a stream in which no key frame has been seen yet: if the stream is
    length-prefixed, the run without the dropped packets ends in the same state. And if every raw
    packet that is dropped is empty, the others are not, what is written has room and the port's
    steps are permitted, then the buffers that were submitted hold the frames that were not dropped,
    one each, and the first one the codec header and the first key frame. -/
theorem dropped_packets_leave_no_trace (mode : MemMode) (n : Nat) (header : Option Bytes)
    (d : Demuxer) (hcodec : d.h2645 = true) (hseen : d.keyframeSeen = false) (vaddr : Nat → Bytes)
    (esBuf : Bytes) (events : List Event) (s : System)
    (hrun : run (step (esConfig mode n)) (start d header (OutputPort.start vaddr esBuf)) events =
      some s) :
    (d.rawStream = false →
      run (step (esConfig mode n)) (start d header (OutputPort.start vaddr esBuf))
        (withoutDropped false events) = some s) ∧
    (Along (step (esConfig mode n)) (fun s e => allowed (esConfig mode n) s e = true)
        (start d header (OutputPort.start vaddr esBuf)) events →
      s.submitted <+: expected header (framesOf d events) ∧
      ∀ first rest, s.submitted = first :: rest →
        ∃ fuel pkt, firstKey events = some (fuel, pkt) ∧
          first = header.getD [] ++ frameBytes fuel d pkt) := by
  constructor
  · intro hraw
    have hsame := run_withoutDropped hcodec hraw hrun
    rw [start, hseen] at hsame
    exact hsame
  · intro halong
    have hledger : Ledger (esConfig mode n) header s :=
      run_invariant (fun _ _ _ => step_ledger) hrun halong
        (start_ledger (esConfig mode n) header d hcodec vaddr esBuf)
    have hframes : s.frames = framesOf d events := frames_eq hrun
    have hgiven := hledger.so_far
    rw [hframes] at hgiven
    refine ⟨hgiven, ?_⟩
    intro first rest hfirst
    rw [hfirst] at hgiven
    have hhead := head_framesOf hcodec hseen rfl hrun
    cases hfs : framesOf d events with
    | nil =>
      rw [hfs] at hgiven
      simp [expected] at hgiven
    | cons f fs =>
      rw [hfs, expected, List.cons_prefix_cons] at hgiven
      rw [hfs, List.head?_cons] at hhead
      obtain ⟨⟨fuel, pkt⟩, hkey, hbytes⟩ := Option.map_eq_some_iff.mp hhead.symm
      exact ⟨fuel, pkt, hkey, by rw [hgiven.1, ← hbytes]⟩

/-- A packet of a few bytes. -/
def shortPacket (bytes : Bytes) (key : Bool) (h : bytes.length < 2147483648) : Packet where
  bytes := bytes
  beyond _ := 0
  video := true
  key := key
  size_lt := h

/-- The codec header is written, a length-prefixed packet is dropped, a key frame is written and
    queued. -/
def prefixedRun : List Event :=
  [.port (.writeEs [1, 2]), .port .copy, .packet 2 (shortPacket [0, 0, 0, 1, 9] false (by decide)),
    .packet 2 (shortPacket [0, 0, 0, 1, 5] true (by decide)), .port (.writeEs [0, 0, 0, 1]),
    .port .copy, .port (.writeEs [5]), .port .copy, .port (.frameDone true), .port .mark,
    .port (.qbuf true)]

theorem dropped_packets_prefixedRun :
    ∃ s, run (step (esConfig .mmap 2))
        (start ⟨true, false, false, 4⟩ (some [1, 2]) (OutputPort.start eightZeros [])) prefixedRun =
        some s ∧
      s.submitted = [[1, 2, 0, 0, 0, 1, 5]] ∧
      s.submitted <+: expected (some [1, 2]) (framesOf ⟨true, false, false, 4⟩ prefixedRun) ∧
      ∃ fuel pkt, firstKey prefixedRun = some (fuel, pkt) ∧
        [1, 2, 0, 0, 0, 1, 5] = [1, 2] ++ frameBytes fuel ⟨true, false, false, 4⟩ pkt := by
  have hend : (run (step (esConfig .mmap 2))
      (start ⟨true, false, false, 4⟩ (some [1, 2]) (OutputPort.start eightZeros []))
      prefixedRun).map (fun s => s.submitted) = some [[1, 2, 0, 0, 0, 1, 5]] := by
    decide +kernel
  have hcheck : alongCheck (step (esConfig .mmap 2)) (allowed (esConfig .mmap 2))
      (start ⟨true, false, false, 4⟩ (some [1, 2]) (OutputPort.start eightZeros []))
      prefixedRun = true := by
    decide +kernel
  obtain ⟨s, hrun, hsubmitted⟩ := Option.map_eq_some_iff.mp hend
  obtain ⟨hgiven, hfirst⟩ := (dropped_packets_leave_no_trace .mmap 2 (some [1, 2])
    ⟨true, false, false, 4⟩ rfl rfl eightZeros [] prefixedRun s hrun).2 (along_of_check hcheck)
  exact ⟨s, hrun, hsubmitted, hgiven, hfirst _ _ hsubmitted⟩

/-- The codec header is written, a packet is dropped, a key frame is written and queued. -/
def dropThenKey : List Event :=
  [.port (.writeEs [1, 2]), .port .copy, .packet 1 (shortPacket [9] false (by decide)),
    .port (.writeEs [9]), .port .copy, .packet 1 (shortPacket [5] true (by decide)),
    .port (.writeEs [5]), .port .copy, .port (.frameDone true), .port .mark, .port (.qbuf true)]

/-- In a raw stream the first buffer that is submitted holds the dropped packet. -/
theorem dropped_packet_submitted :
    ∃ s, run (step (esConfig .mmap 2))
        (start ⟨true, true, false, 4⟩ (some [1, 2]) (OutputPort.start eightZeros [])) dropThenKey =
        some s ∧
      s.submitted = [[1, 2, 9, 5]] ∧
      ¬ s.submitted <+: expected (some [1, 2]) (framesOf ⟨true, true, false, 4⟩ dropThenKey) ∧
      firstKey dropThenKey = some (1, shortPacket [5] true (by decide)) ∧
      [1, 2, 9, 5] ≠
        [1, 2] ++ frameBytes 1 ⟨true, true, false, 4⟩ (shortPacket [5] true (by decide)) := by
  have hend : (run (step (esConfig .mmap 2))
      (start ⟨true, true, false, 4⟩ (some [1, 2]) (OutputPort.start eightZeros []))
      dropThenKey).map (fun s => s.submitted) = some [[1, 2, 9, 5]] := by
    decide +kernel
  have hframes : framesOf ⟨true, true, false, 4⟩ dropThenKey = [[5]] := by decide +kernel
  obtain ⟨s, hrun, hsubmitted⟩ := Option.map_eq_some_iff.mp hend
  refine ⟨s, hrun, hsubmitted, ?_, rfl, by decide +kernel⟩
  rw [hsubmitted, hframes]
  decide

end Streambox.V4l2Dec.DroppedPackets
