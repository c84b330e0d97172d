import Streambox.Lib.Run
import Mathlib.Logic.Function.Basic

/-! v4l2-dec.c, the output port: elementary stream on its way to the decoder.

    The parser calls `v4l2_dec_write_es` for the pieces of a frame and `v4l2_dec_frame_done` behind
    the last. The decoder thread takes back the buffers that the kernel is done with.

        parser    get_free_output_buf ─▶ memcpy, used += size ─▶ .. ─▶ queued = true ─▶ QBUF
                          ▲                                                               │
        decoder           └──────── used = 0 ◀── queued = false ◀── DQBUF ◀───── kernel ◀─┘

    `frame_done` gives up the current buffer only behind a successful QBUF: where it fails the bytes
    stay, and the next frame goes behind them. The decoder thread gives a buffer free before it has
    set `used` to zero. And `bytesused` is `used` also where the secure copy is longer: a VP9 frame
    has a header in front of it there. -/

namespace Streambox.V4l2Dec.OutputPort
open Streambox.Lib

abbrev Bytes := List UInt8

/-- `sInMemMode`. -/
inductive MemMode where
  | mmap
  | dmabuf
  deriving DecidableEq, Repr

/-- What does not change while the port streams. `pack` is what `frame_done` copies to secure
    memory of a VP9 frame: the frames that `vp9_superframe_split_filter` finds in it, each behind a
    header; nothing if the split fails. -/
structure Config where
  mode : MemMode
  bufNum : Nat
  vp9 : Bool
  pack : Bytes → Option Bytes

/-- `frame_buffer`. -/
structure Buffer where
  queued : Bool
  used : Nat
  vaddr : Bytes
  smem : Bytes
  bytesused : Nat

/-- Where the parser is. -/
inductive Phase where
  | idle
  | writing (data : Bytes)
  | marking
  | queuing
  deriving DecidableEq, Repr

/-- Where the decoder thread is: between the ioctl and its two updates. -/
inductive DecoderPhase where
  | idle
  | dequeued (i : Nat)
  | cleared (i : Nat)
  deriving DecidableEq, Repr

/-- The port, with `held` for the buffers that the kernel has; `written` are the bytes that
    `write_es` has taken since the last call of `frame_done`, and `fresh` says that it has taken
    none. -/
structure Port where
  buf : Nat → Buffer
  esBuf : Bytes
  cur : Option Nat
  quit : Bool
  phase : Phase
  decoder : DecoderPhase
  held : Nat → Bool
  written : Bytes
  fresh : Bool

inductive Action where
  | writeEs (data : Bytes)
  | copy
  | frameDone (allocOk : Bool)
  | mark
  | qbuf (ok : Bool)
  | dequeue (i : Nat)
  | clear
  | reset
  | quitThread
  deriving DecidableEq, Repr

/-- Where `write_es` copies to: the buffer, or `es_buf` if it is secure. -/
def memory (cfg : Config) (s : Port) (i : Nat) : Bytes :=
  match cfg.mode with
  | .mmap => (s.buf i).vaddr
  | .dmabuf => s.esBuf

def memcpy (mem : Bytes) (offset : Nat) (data : Bytes) : Bytes :=
  mem.take offset ++ data ++ mem.drop (offset + data.length)

/-- `get_free_output_buf`. -/
def getFreeOutputBuf (cfg : Config) (s : Port) : Option Nat :=
  (List.range cfg.bufNum).find? fun i => !(s.buf i).queued

/-- `write_es` behind the search: the bytes are copied, if there is room. -/
def writeData (cfg : Config) (s : Port) (i : Nat) (data : Bytes) : Port :=
  if (memory cfg s i).length < (s.buf i).used + data.length then { s with phase := .idle }
  else
    let copied := memcpy (memory cfg s i) (s.buf i).used data
    { s with
      buf := Function.update s.buf i { s.buf i with
        used := (s.buf i).used + data.length
        vaddr := if cfg.mode = .mmap then copied else (s.buf i).vaddr }
      esBuf := if cfg.mode = .dmabuf then copied else s.esBuf
      phase := .idle
      written := s.written ++ data
      fresh := false }

/-- The end of a call of `frame_done`, for the account. -/
def Port.closed (s : Port) : Port := { s with phase := .idle, written := [], fresh := true }

/-- What `frame_done` puts into secure memory, if it gets there. -/
def secured (cfg : Config) (s : Port) (i : Nat) (allocOk : Bool) : Option Bytes :=
  match cfg.mode with
  | .mmap => some (s.buf i).smem
  | .dmabuf =>
    let frame := s.esBuf.take (s.buf i).used
    if allocOk then if cfg.vp9 then cfg.pack frame else some frame else none

/-- One step of either thread. `writeEs`, `copy` are `v4l2_dec_write_es`; `frameDone`, `mark`,
    `qbuf` are `v4l2_dec_frame_done`; `dequeue`, `clear`, `reset` are the decoder thread. -/
def step (cfg : Config) (s : Port) : Action → Option Port
  | .writeEs data =>
    if s.phase = .idle then
      match s.cur with
      | some _ => some { s with phase := .writing data }
      | none =>
        match getFreeOutputBuf cfg s with
        | some i => some { s with cur := some i, phase := .writing data }
        | none => if s.quit then some s else none
    else none
  | .copy =>
    match s.phase, s.cur with
    | .writing data, some i => some (writeData cfg s i data)
    | _, _ => none
  | .frameDone allocOk =>
    if s.phase = .idle then
      match s.cur with
      | none => some s.closed
      | some i =>
        if s.quit then some s.closed
        else
          match secured cfg s i allocOk with
          | none => some s.closed
          | some smem =>
            some { s with
              buf := Function.update s.buf i { s.buf i with smem, bytesused := (s.buf i).used }
              phase := .marking }
    else none
  | .mark =>
    match s.phase, s.cur with
    | .marking, some i =>
      some { s with
        buf := Function.update s.buf i { s.buf i with queued := true }
        phase := .queuing }
    | _, _ => none
  | .qbuf ok =>
    match s.phase, s.cur with
    | .queuing, some i =>
      if ok then some { s.closed with held := Function.update s.held i true, cur := none }
      else some s.closed
    | _, _ => none
  | .dequeue i =>
    if s.decoder = .idle ∧ s.held i = true then
      some { s with held := Function.update s.held i false, decoder := .dequeued i }
    else none
  | .clear =>
    match s.decoder with
    | .dequeued i =>
      some { s with
        buf := Function.update s.buf i { s.buf i with queued := false }
        decoder := .cleared i }
    | _ => none
  | .reset =>
    match s.decoder with
    | .cleared i =>
      some { s with
        buf := Function.update s.buf i { s.buf i with
          used := 0
          -- `secmem_free`
          smem := if cfg.mode = .dmabuf then [] else (s.buf i).smem }
        decoder := .idle }
    | _ => none
  | .quitThread => some { s with quit := true }

/-- The port when it starts to stream, with the memory of its buffers. -/
def start (vaddr : Nat → Bytes) (esBuf : Bytes) : Port where
  buf i := ⟨false, 0, vaddr i, [], 0⟩
  esBuf := esBuf
  cur := none
  quit := false
  phase := .idle
  decoder := .idle
  held _ := false
  written := []
  fresh := true

/-! ### The account -/

/-- What a buffer holds that is queued: the mapped memory or the secure one, `bytesused` of it. -/
def submitted (cfg : Config) (s : Port) (i : Nat) : Bytes :=
  match cfg.mode with
  | .mmap => (s.buf i).vaddr.take (s.buf i).bytesused
  | .dmabuf => (s.buf i).smem.take (s.buf i).bytesused

/-- These bytes are submitted, and `bytesused` is their number. -/
def Submits (cfg : Config) (s : Port) (i : Nat) (bytes : Bytes) : Prop :=
  submitted cfg s i = bytes ∧ (s.buf i).bytesused = bytes.length

/-- A buffer is marked exactly if the kernel has it, except between an ioctl and its mark. -/
def Agree (s : Port) : Prop :=
  ∀ i, s.decoder ≠ .dequeued i → ¬ (s.phase = .queuing ∧ s.cur = some i) →
    (s.buf i).queued = s.held i

/-- What is asked of a step: bytes are not written to a marked buffer, and the first ones of a frame
    go to the front of it; a frame that is queued is what was written since the last call. -/
def Conforms (cfg : Config) (s : Port) : Action → Prop
  | .copy => ∀ i, s.cur = some i →
      (s.buf i).queued = false ∧ (s.fresh = true → (s.buf i).used = 0)
  | .qbuf true => ∀ i, s.cur = some i → Submits cfg s i s.written
  | _ => True

/-- The steps that keep the account: with bytes in the buffer `frame_done` does not fail, nor does
    it put a VP9 frame into secure memory; and bytes are written when the decoder thread is through
    with the buffer. -/
def permitted (cfg : Config) (s : Port) : Action → Bool
  | .copy => s.cur.all fun i => s.decoder ≠ .cleared i
  | .frameDone allocOk =>
    s.cur.all fun i =>
      (s.buf i).used = 0 || (!s.quit && (cfg.mode = .mmap || (allocOk && !cfg.vp9)))
  | .qbuf ok => ok
  | _ => true

/-- The invariant of permitted runs. -/
structure Inv (cfg : Config) (s : Port) : Prop where
  marks : ∀ i, (s.buf i).queued = true ↔
    s.held i = true ∨ s.decoder = .dequeued i ∨ (s.phase = .queuing ∧ s.cur = some i)
  decoder_out : ∀ i, s.decoder = .dequeued i ∨ s.decoder = .cleared i → s.held i = false
  cur_out : ∀ i, s.cur = some i → s.held i = false ∧ s.decoder ≠ .dequeued i
  early : ∀ i, s.cur = some i → s.decoder = .cleared i →
    s.fresh = true ∧ ∃ data, s.phase = .writing data
  opened : ∀ i, s.cur = some i → s.decoder ≠ .cleared i →
    (s.buf i).used = s.written.length ∧ (memory cfg s i).take (s.buf i).used = s.written
  rest : ∀ i, s.cur ≠ some i → s.held i = false → s.decoder ≠ .dequeued i →
    s.decoder ≠ .cleared i → (s.buf i).used = 0
  fresh : s.fresh = true → s.written = []
  closed : s.cur = none → s.fresh = true ∧ s.phase = .idle
  prepared : ∀ i, s.cur = some i → s.phase = .marking ∨ s.phase = .queuing →
    Submits cfg s i s.written

theorem start_inv (cfg : Config) (vaddr : Nat → Bytes) (esBuf : Bytes) :
    Inv cfg (start vaddr esBuf) where
  marks i := by simp [start]
  decoder_out i h := rfl
  cur_out i h := by simp [start] at h
  early i h := by simp [start] at h
  opened i h := by simp [start] at h
  rest i _ _ _ _ := rfl
  fresh _ := rfl
  closed _ := ⟨rfl, rfl⟩
  prepared i h := by simp [start] at h

/-! ### What each step keeps -/

section steps
variable {cfg : Config} {s s' : Port}

theorem freeBuf_unmarked {i : Nat} (h : getFreeOutputBuf cfg s = some i) :
    (s.buf i).queued = false := by
  have := List.find?_some h
  simpa using this

/-- The bytes of a frame depend on the memory of its buffer only. -/
theorem opened_congr {i : Nat} (hused : (s'.buf i).used = (s.buf i).used)
    (hvaddr : (s'.buf i).vaddr = (s.buf i).vaddr) (hesBuf : s'.esBuf = s.esBuf)
    (hwritten : s'.written = s.written)
    (h : (s.buf i).used = s.written.length ∧
      (memory cfg s i).take (s.buf i).used = s.written) :
    (s'.buf i).used = s'.written.length ∧
      (memory cfg s' i).take (s'.buf i).used = s'.written := by
  have hmemory : memory cfg s' i = memory cfg s i := by rw [memory, memory, hvaddr, hesBuf]
  rw [hused, hwritten, hmemory]
  exact h

theorem submits_congr {i : Nat} {bytes : Bytes} (hvaddr : (s'.buf i).vaddr = (s.buf i).vaddr)
    (hsmem : (s'.buf i).smem = (s.buf i).smem)
    (hbytesused : (s'.buf i).bytesused = (s.buf i).bytesused) (h : Submits cfg s i bytes) :
    Submits cfg s' i bytes := by
  rw [Submits, submitted, hvaddr, hsmem, hbytesused]
  exact h

/-- The decoder thread is through with the current buffer, unless it has just been chosen. -/
theorem Inv.not_early (h : Inv cfg s) {i : Nat} (hcur : s.cur = some i)
    (hphase : ∀ data, s.phase ≠ .writing data) : s.decoder ≠ .cleared i := by
  intro hearly
  obtain ⟨-, data, hwriting⟩ := h.early i hcur hearly
  exact hphase data hwriting

theorem writeEs_inv {data : Bytes} (h : Inv cfg s) (hstep : step cfg s (.writeEs data) = some s') :
    Inv cfg s' := by
  rw [step] at hstep
  split at hstep
  case isFalse => cases hstep
  case isTrue hidle =>
    split at hstep
    case h_1 i hcur =>
      cases hstep
      refine ⟨?_, h.decoder_out, h.cur_out, ?_, h.opened, h.rest, h.fresh, ?_, ?_⟩
      · intro j
        rw [h.marks j]
        simp [hidle]
      · intro j hj hearly
        exact ⟨(h.early j hj hearly).1, data, rfl⟩
      · intro hnone
        rw [hcur] at hnone
        cases hnone
      · rintro j - (hphase | hphase) <;> cases hphase
    case h_2 hcur =>
      obtain ⟨hfresh, -⟩ := h.closed hcur
      split at hstep
      case h_1 i hfree =>
        cases hstep
        -- the buffer is not marked, so neither the kernel nor the decoder thread has it
        have hunmarked : ¬ (s.buf i).queued = true := by simp [freeBuf_unmarked hfree]
        rw [h.marks i, not_or, not_or, Bool.not_eq_true] at hunmarked
        obtain ⟨hheld, hdecoder, -⟩ := hunmarked
        refine ⟨?_, h.decoder_out, ?_, ?_, ?_, ?_, h.fresh, ?_, ?_⟩
        · intro j
          rw [h.marks j]
          simp [hidle]
        · rintro j hj
          cases hj
          exact ⟨hheld, hdecoder⟩
        · rintro j hj -
          exact ⟨hfresh, data, rfl⟩
        · rintro j hj hcleared
          cases hj
          have hused : (s.buf i).used = 0 := h.rest i (by simp [hcur]) hheld hdecoder hcleared
          simp only [hused, h.fresh hfresh]
          exact ⟨rfl, rfl⟩
        · intro j hj
          exact h.rest j (by simp [hcur])
        · intro hnone
          cases hnone
        · rintro j - (hphase | hphase) <;> cases hphase
      case h_2 =>
        split at hstep
        case isTrue =>
          cases hstep
          exact h
        case isFalse => cases hstep

theorem memcpy_take {mem data : Bytes} {offset : Nat} (h : offset ≤ mem.length) :
    (memcpy mem offset data).take (offset + data.length) = mem.take offset ++ data := by
  have hlen : (mem.take offset ++ data).length = offset + data.length := by
    rw [List.length_append, List.length_take]
    omega
  rw [memcpy, ← hlen, List.take_left]

theorem copy_inv (h : Inv cfg s) (hok : permitted cfg s .copy = true)
    (hstep : step cfg s .copy = some s') : Inv cfg s' := by
  rw [step] at hstep
  split at hstep
  case h_2 => cases hstep
  case h_1 data i hphase hcur =>
    cases hstep
    have hcleared : s.decoder ≠ .cleared i := by simpa [permitted, hcur] using hok
    obtain ⟨hused, htake⟩ := h.opened i hcur hcleared
    rw [writeData]
    split
    case isTrue =>
      refine ⟨?_, h.decoder_out, h.cur_out, ?_, h.opened, h.rest, h.fresh, ?_, ?_⟩
      · intro j
        rw [h.marks j]
        simp [hphase]
      · intro j hj hearly
        rw [hcur] at hj
        cases hj
        exact absurd hearly hcleared
      · intro hnone
        exact ⟨(h.closed hnone).1, rfl⟩
      · rintro j - (hphase | hphase) <;> cases hphase
    case isFalse hroom =>
      have hcopied : (memcpy (memory cfg s i) (s.buf i).used data).take
          ((s.buf i).used + data.length) = s.written ++ data := by
        rw [memcpy_take (by omega), htake]
      refine ⟨?_, h.decoder_out, h.cur_out, ?_, ?_, ?_, ?_, ?_, ?_⟩
      · intro j
        by_cases hj : j = i
        · subst hj
          simpa [hphase] using h.marks j
        · simpa [hj, hphase] using h.marks j
      · intro j hj hearly
        rw [hcur] at hj
        cases hj
        exact absurd hearly hcleared
      · intro j hj _
        rw [hcur] at hj
        cases hj
        refine ⟨by simp [hused], ?_⟩
        cases hmode : cfg.mode with
        | mmap => simpa [memory, hmode] using hcopied
        | dmabuf => simpa [memory, hmode] using hcopied
      · intro j hj hheld hdequeued hcleared'
        have hne : j ≠ i := fun hji => hj (by rw [hji]; exact hcur)
        simpa [hne] using h.rest j hj hheld hdequeued hcleared'
      · intro hfresh
        cases hfresh
      · intro hnone
        rw [hcur] at hnone
        cases hnone
      · rintro j - (hphase | hphase) <;> cases hphase

/-- A call of `frame_done` that fails with an empty buffer. -/
theorem closed_inv (h : Inv cfg s) (hphase : s.phase = .idle)
    (hempty : ∀ i, s.cur = some i → (s.buf i).used = 0) : Inv cfg s.closed := by
  refine ⟨?_, h.decoder_out, h.cur_out, ?_, ?_, h.rest, fun _ => rfl, fun _ => ⟨rfl, rfl⟩, ?_⟩
  · intro j
    simpa [Port.closed, hphase] using h.marks j
  · intro j hj hearly
    exact absurd hearly (h.not_early hj (by simp [hphase]))
  · intro j hj _
    refine ⟨hempty j hj, ?_⟩
    rw [show (s.closed.buf j).used = 0 from hempty j hj]
    rfl
  · rintro j - (hphase | hphase) <;> cases hphase

/-- A buffer into which `frame_done` has put the frame submits it. -/
theorem secured_submits {i : Nat} {allocOk : Bool} {smem : Bytes}
    (hused : (s.buf i).used = s.written.length)
    (htake : (memory cfg s i).take (s.buf i).used = s.written)
    (hsecured : secured cfg s i allocOk = some smem)
    (hplain : (s.buf i).used = 0 ∨ cfg.mode = .mmap ∨ cfg.vp9 = false)
    (hvaddr : (s'.buf i).vaddr = (s.buf i).vaddr) (hsmem : (s'.buf i).smem = smem)
    (hbytesused : (s'.buf i).bytesused = (s.buf i).used) : Submits cfg s' i s.written := by
  refine ⟨?_, by rw [hbytesused, hused]⟩
  rw [submitted, hvaddr, hsmem, hbytesused]
  rcases hplain with hzero | hmode | hvp9
  · -- there is nothing to submit, whatever the secure memory holds
    have hnone : s.written = [] := List.length_eq_zero_iff.mp (hused.symm.trans hzero)
    rw [hzero, List.take_zero, List.take_zero, hnone]
    split <;> rfl
  · rw [memory, hmode] at htake
    rw [hmode]
    exact htake
  · rw [memory] at htake
    rw [secured] at hsecured
    cases hmode : cfg.mode with
    | mmap =>
      rw [hmode] at htake
      exact htake
    | dmabuf =>
      simp only [hmode, hvp9] at htake hsecured
      split at hsecured
      case isFalse => cases hsecured
      case isTrue =>
        have hcopy : s.written = smem := by simpa [htake] using hsecured
        rw [← hcopy, hused, List.take_length]

theorem permitted_frameDone {i : Nat} {allocOk : Bool} (hcur : s.cur = some i) :
    permitted cfg s (.frameDone allocOk) = true ↔ (s.buf i).used = 0 ∨
      s.quit = false ∧ (cfg.mode = .mmap ∨ allocOk = true ∧ cfg.vp9 = false) := by
  simp [permitted, hcur]

/-- A permitted call that gets nothing into secure memory has nothing in the buffer. -/
theorem permitted_fails {i : Nat} {allocOk : Bool} (hcur : s.cur = some i)
    (hok : permitted cfg s (.frameDone allocOk) = true) (hnone : secured cfg s i allocOk = none) :
    (s.buf i).used = 0 := by
  rcases (permitted_frameDone hcur).mp hok with hzero | ⟨-, hmode | ⟨halloc, hvp9⟩⟩
  · exact hzero
  · rw [secured, hmode] at hnone
    cases hnone
  · rw [secured] at hnone
    split at hnone
    · cases hnone
    · simp [halloc, hvp9] at hnone

theorem frameDone_inv {allocOk : Bool} (h : Inv cfg s)
    (hok : permitted cfg s (.frameDone allocOk) = true)
    (hstep : step cfg s (.frameDone allocOk) = some s') : Inv cfg s' := by
  rw [step] at hstep
  split at hstep
  case isFalse => cases hstep
  case isTrue hidle =>
    split at hstep
    case h_1 hcur =>
      cases hstep
      exact closed_inv h hidle (by simp [hcur])
    case h_2 i hcur =>
      have hcleared := h.not_early hcur (by simp [hidle])
      obtain ⟨hused, htake⟩ := h.opened i hcur hcleared
      have hfails : (s.buf i).used = 0 → Inv cfg s.closed := by
        intro hzero
        refine closed_inv h hidle ?_
        intro j hj
        rw [hcur] at hj
        cases hj
        exact hzero
      split at hstep
      case isTrue hquit =>
        cases hstep
        exact hfails (by simpa [hquit] using (permitted_frameDone hcur).mp hok)
      case isFalse hquit =>
        split at hstep
        case h_1 hsecured =>
          cases hstep
          exact hfails (permitted_fails hcur hok hsecured)
        case h_2 smem hsecured =>
          cases hstep
          have hplain : (s.buf i).used = 0 ∨ cfg.mode = .mmap ∨ cfg.vp9 = false := by
            rcases (permitted_frameDone hcur).mp hok with hzero | ⟨-, hmode | ⟨-, hvp9⟩⟩
            · exact .inl hzero
            · exact .inr (.inl hmode)
            · exact .inr (.inr hvp9)
          refine ⟨?_, h.decoder_out, h.cur_out, ?_, ?_, ?_, h.fresh, ?_, ?_⟩
          · intro j
            by_cases hj : j = i
            · subst hj
              simpa [hidle] using h.marks j
            · simpa [hj, hidle] using h.marks j
          · intro j hj hearly
            exact absurd hearly (h.not_early hj (by simp [hidle]))
          · intro j hj _
            rw [hcur] at hj
            cases hj
            exact opened_congr (s := s) (by simp) (by simp) rfl rfl ⟨hused, htake⟩
          · intro j hj hheld hdequeued hcleared'
            have hne : j ≠ i := fun hji => hj (by rw [hji]; exact hcur)
            simpa [hne] using h.rest j hj hheld hdequeued hcleared'
          · intro hnone
            rw [hcur] at hnone
            cases hnone
          · rintro j hj -
            rw [hcur] at hj
            cases hj
            exact secured_submits (s := s) hused htake hsecured hplain (by simp) (by simp) (by simp)

theorem mark_inv (h : Inv cfg s) (hstep : step cfg s .mark = some s') : Inv cfg s' := by
  rw [step] at hstep
  split at hstep
  case h_2 => cases hstep
  case h_1 i hphase hcur =>
    cases hstep
    refine ⟨?_, h.decoder_out, h.cur_out, ?_, ?_, ?_, h.fresh, ?_, ?_⟩
    · intro j
      by_cases hj : j = i
      · subst hj
        simp [hcur]
      · have hne : ¬ i = j := fun hij => hj hij.symm
        simpa [hj, hne, hphase, hcur] using h.marks j
    · intro j hj hearly
      exact absurd hearly (h.not_early hj (by simp [hphase]))
    · intro j hj hcleared
      rw [hcur] at hj
      cases hj
      exact opened_congr (s := s) (by simp) (by simp) rfl rfl (h.opened i hcur hcleared)
    · intro j hj hheld hdequeued hcleared
      have hne : j ≠ i := fun hji => hj (by rw [hji]; exact hcur)
      simpa [hne] using h.rest j hj hheld hdequeued hcleared
    · intro hnone
      rw [hcur] at hnone
      cases hnone
    · rintro j hj -
      rw [hcur] at hj
      cases hj
      exact submits_congr (s := s) (by simp) (by simp) (by simp) (h.prepared i hcur (.inl hphase))

theorem qbuf_inv (h : Inv cfg s) (hstep : step cfg s (.qbuf true) = some s') : Inv cfg s' := by
  rw [step] at hstep
  split at hstep
  case h_2 => cases hstep
  case h_1 i hphase hcur =>
    cases hstep
    have hcleared := h.not_early hcur (by simp [hphase])
    have hdequeued := (h.cur_out i hcur).2
    refine ⟨?_, ?_, ?_, ?_, ?_, ?_, fun _ => rfl, fun _ => ⟨rfl, rfl⟩, ?_⟩
    · intro j
      by_cases hj : j = i
      · subst hj
        simpa [Port.closed, hphase, hcur] using h.marks j
      · have hne : ¬ i = j := fun hij => hj hij.symm
        simpa [Port.closed, hj, hne, hphase, hcur] using h.marks j
    · intro j hj
      have hne : j ≠ i := by
        rintro rfl
        rcases hj with hj | hj
        · exact hdequeued hj
        · exact hcleared hj
      simpa [hne] using h.decoder_out j hj
    · intro j hj
      cases hj
    · intro j hj
      cases hj
    · intro j hj
      cases hj
    · intro j _ hheld hdequeued' hcleared'
      have hne : j ≠ i := by
        rintro rfl
        simp at hheld
      have hheld' : s.held j = false := by simpa [hne] using hheld
      exact h.rest j (by simp [hcur, hne.symm]) hheld' hdequeued' hcleared'
    · intro j hj
      cases hj

theorem dequeue_inv {i : Nat} (h : Inv cfg s) (hstep : step cfg s (.dequeue i) = some s') :
    Inv cfg s' := by
  rw [step] at hstep
  split at hstep
  case isFalse => cases hstep
  case isTrue hidle =>
    obtain ⟨hdecoder, hheld⟩ := hidle
    cases hstep
    have hcur : ∀ j, s.cur = some j → j ≠ i := by
      rintro j hj rfl
      rw [(h.cur_out j hj).1] at hheld
      cases hheld
    refine ⟨?_, ?_, ?_, ?_, ?_, ?_, h.fresh, h.closed, h.prepared⟩
    · intro j
      by_cases hj : j = i
      · subst hj
        simpa [hheld] using h.marks j
      · have hne : ¬ i = j := fun hij => hj hij.symm
        simpa [hj, hne, hdecoder] using h.marks j
    · rintro j (hj | hj)
      · cases hj
        simp
      · cases hj
    · intro j hj
      have hne := hcur j hj
      refine ⟨by simpa [hne] using (h.cur_out j hj).1, ?_⟩
      intro hdequeued
      cases hdequeued
      exact hne rfl
    · rintro j - hj
      cases hj
    · intro j hj _
      exact h.opened j hj (by simp [hdecoder])
    · intro j hj hheld' hdequeued _
      have hne : j ≠ i := by
        rintro rfl
        exact hdequeued rfl
      exact h.rest j hj (by simpa [hne] using hheld') (by simp [hdecoder]) (by simp [hdecoder])

theorem clear_inv (h : Inv cfg s) (hstep : step cfg s .clear = some s') : Inv cfg s' := by
  rw [step] at hstep
  split at hstep
  case h_2 => cases hstep
  case h_1 i hdecoder =>
    cases hstep
    have hheld := h.decoder_out i (.inl hdecoder)
    have hcur : ∀ j, s.cur = some j → j ≠ i := by
      rintro j hj rfl
      exact (h.cur_out j hj).2 hdecoder
    have hnotcur : ¬ s.cur = some i := fun hi => hcur i hi rfl
    refine ⟨?_, ?_, ?_, ?_, ?_, ?_, h.fresh, h.closed, ?_⟩
    · intro j
      by_cases hj : j = i
      · subst hj
        simp [hheld, hnotcur]
      · have hne : ¬ i = j := fun hij => hj hij.symm
        simpa [hj, hne, hdecoder] using h.marks j
    · rintro j (hj | hj)
      · cases hj
      · cases hj
        exact hheld
    · intro j hj
      exact ⟨(h.cur_out j hj).1, by simp⟩
    · intro j hj hcleared
      cases hcleared
      exact absurd rfl (hcur _ hj)
    · intro j hj _
      have hne := hcur j hj
      exact opened_congr (s := s) (by simp [hne]) (by simp [hne]) rfl rfl
        (h.opened j hj (by simp [hdecoder]))
    · intro j hj hheld' _ hcleared
      have hne : j ≠ i := by
        rintro rfl
        exact hcleared rfl
      have hne' : ¬ i = j := fun hij => hne hij.symm
      simpa [hne] using h.rest j hj hheld' (by simp [hdecoder, hne']) (by simp [hdecoder])
    · intro j hj hphase
      have hne := hcur j hj
      exact submits_congr (s := s) (by simp [hne]) (by simp [hne]) (by simp [hne])
        (h.prepared j hj hphase)

theorem reset_inv (h : Inv cfg s) (hstep : step cfg s .reset = some s') : Inv cfg s' := by
  rw [step] at hstep
  split at hstep
  case h_2 => cases hstep
  case h_1 i hdecoder =>
    cases hstep
    refine ⟨?_, ?_, ?_, ?_, ?_, ?_, h.fresh, h.closed, ?_⟩
    · intro j
      by_cases hj : j = i
      · subst hj
        simpa [hdecoder] using h.marks j
      · simpa [hj, hdecoder] using h.marks j
    · rintro j (hj | hj) <;> cases hj
    · intro j hj
      exact ⟨(h.cur_out j hj).1, by simp⟩
    · rintro j - hj
      cases hj
    · intro j hj _
      by_cases hji : j = i
      · -- nothing has been written to the buffer yet
        subst hji
        have hwritten := h.fresh (h.early j hj hdecoder).1
        simp [hwritten]
      · have hne : ¬ i = j := fun hij => hji hij.symm
        exact opened_congr (s := s) (by simp [hji]) (by simp [hji]) rfl rfl
          (h.opened j hj (by simp [hdecoder, hne]))
    · intro j hj hheld _ _
      by_cases hji : j = i
      · subst hji
        simp
      · have hne : ¬ i = j := fun hij => hji hij.symm
        simpa [hji] using h.rest j hj hheld (by simp [hdecoder]) (by simp [hdecoder, hne])
    · intro j hj hphase
      have hne : j ≠ i := by
        rintro rfl
        have hphase' : s.phase = .marking ∨ s.phase = .queuing := hphase
        refine h.not_early hj ?_ hdecoder
        rcases hphase' with hphase' | hphase' <;> simp [hphase']
      exact submits_congr (s := s) (by simp [hne]) (by simp [hne]) (by simp [hne])
        (h.prepared j hj hphase)

/-- A permitted step keeps the invariant. -/
theorem step_inv {a : Action} (h : Inv cfg s) (hok : permitted cfg s a = true)
    (hstep : step cfg s a = some s') : Inv cfg s' := by
  cases a with
  | writeEs data => exact writeEs_inv h hstep
  | copy => exact copy_inv h hok hstep
  | frameDone allocOk => exact frameDone_inv h hok hstep
  | mark => exact mark_inv h hstep
  | qbuf ok =>
    cases ok with
    | false => cases hok
    | true => exact qbuf_inv h hstep
  | dequeue i => exact dequeue_inv h hstep
  | clear => exact clear_inv h hstep
  | reset => exact reset_inv h hstep
  | quitThread =>
    cases hstep
    exact ⟨h.marks, h.decoder_out, h.cur_out, h.early, h.opened, h.rest, h.fresh, h.closed,
      h.prepared⟩

theorem Inv.agree (h : Inv cfg s) : Agree s := by
  intro i hdequeued hqueuing
  rw [Bool.eq_iff_iff, h.marks i]
  simp [hdequeued, hqueuing]

/-- A permitted step does what is asked of it. -/
theorem Inv.conforms {a : Action} (h : Inv cfg s) (hok : permitted cfg s a = true)
    (hstep : step cfg s a = some s') : Conforms cfg s a := by
  cases a with
  | copy =>
    rw [step] at hstep
    split at hstep
    case h_2 => cases hstep
    case h_1 data i hphase hcur =>
      intro j hj
      rw [hcur] at hj
      cases hj
      have hcleared : s.decoder ≠ .cleared i := by simpa [permitted, hcur] using hok
      obtain ⟨hheld, hdequeued⟩ := h.cur_out i hcur
      obtain ⟨hused, -⟩ := h.opened i hcur hcleared
      refine ⟨?_, ?_⟩
      · rw [h.agree i hdequeued (by simp [hphase]), hheld]
      · intro hfresh
        rw [hused, h.fresh hfresh]
        rfl
  | qbuf ok =>
    cases ok with
    | false => trivial
    | true =>
      rw [step] at hstep
      split at hstep
      case h_2 => cases hstep
      case h_1 hphase hcur =>
        intro j hj
        exact h.prepared j hj (.inr hphase)
  | writeEs data => trivial
  | frameDone allocOk => trivial
  | mark => trivial
  | dequeue i => trivial
  | clear => trivial
  | reset => trivial
  | quitThread => trivial

end steps

/-! ### Runs -/

def eightZeros : Nat → Bytes := fun _ => List.replicate 8 0

end Streambox.V4l2Dec.OutputPort
