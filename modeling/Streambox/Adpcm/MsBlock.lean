import Mathlib.Logic.Function.Basic
import Streambox.Adpcm.Blocks

/-! libadpcm, `ms_adpcm_decode_block` against the recursion that it stands for.

    The reference fills an array: two samples of each channel from the header, and then one for each
    nibble, made of the last two samples of its channel. The code keeps no array. It holds the last
    samples in variables that move down by one in every pass, and hands the oldest one out.

        reference   .. a  b  c  d │ next            pass     out: a    s0 s1 s2 s3 = b c d next
        window         s0 s1 s2 s3

    A byte holds two nibbles, and is read in the first of two passes. The loop stops when there is
    no byte left to read, which is before the second pass of the last one. -/

namespace Streambox.Adpcm.MsBlock

/-! ### The loop -/

/-- The variables of the loop. -/
structure Loop where
  st : MsState
  i : Nat
  blockindx : Nat
  sampleindx : Nat

/-- The reading half of the loop's body. -/
def Loop.read (channel : Nat) (buf : Bytes) (block : Nat) (l : Loop) : Loop :=
  if l.sampleindx ≤ l.i ∧ l.blockindx < block then
    { l with
      st := msRead channel l.st (byteAt buf l.blockindx)
      blockindx := l.blockindx + 1
      sampleindx := l.sampleindx + 2 }
  else l

/-- The body of the loop. -/
def Loop.body (beyond : Nat → Int × Int) (channel : Nat) (buf : Bytes) (block : Nat) (l : Loop) :
    Loop :=
  { l.read channel buf block with
    st := msPass beyond channel (1 < channel ∧ l.i % 2 = 1) (l.read channel buf block).st
    i := l.i + 1 }

/-- `for (i = channel * 2; blockindx < block; i++)`, for at most `fuel` passes. -/
def loop (beyond : Nat → Int × Int) (channel : Nat) (buf : Bytes) (block : Nat) :
    Nat → Loop → Option Loop
  | 0, _ => none
  | fuel + 1, l =>
    if l.blockindx < block then loop beyond channel buf block fuel (l.body beyond channel buf block)
    else some l

/-- `ms_adpcm_decode_block`: the samples in `pcm_buf`, as many as it returns. -/
def decodeMsBlock (beyond : Nat → Int × Int) (channel : Nat) (buf : Bytes) (block : Nat) :
    Option (List Int) :=
  (loop beyond channel buf block (2 * block + 1)
    ⟨msHeader channel buf, 2 * channel, 7 * channel, 2 * channel⟩).map
      fun l => l.st.samples channel

/-! ### The recursion -/

/-- The array of the reference, and the step sizes of the channels. -/
structure Recursion where
  samples : List Int
  delta : Nat → Int

/-- One more sample. -/
def Recursion.next (channel : Nat) (bpred : Nat → Nat) (r : Recursion) (bytecode : Nat) :
    Recursion :=
  let i := r.samples.length
  let chan := i % channel
  let predict := r.samples.getD (i - channel) 0 * adaptCoeff1.getD (bpred chan) 0 +
    r.samples.getD (i - 2 * channel) 0 * adaptCoeff2.getD (bpred chan) 0
  { samples := r.samples ++ [msCurrent bytecode (r.delta chan) predict]
    delta := Function.update r.delta chan (nextDelta bytecode (r.delta chan)) }

/-- The header: the step sizes, and two samples of each channel, the older ones stored last. -/
def Recursion.header (channel : Nat) (buf : Bytes) : Recursion where
  samples := ((List.range channel).map fun c => shortAt buf (5 * channel + 2 * c)) ++
    (List.range channel).map fun c => shortAt buf (3 * channel + 2 * c)
  delta c := shortAt buf (channel + 2 * c)

/-- The nibbles of some bytes, high ones first. -/
def nibbles (bytes : List Nat) : List Nat := bytes.flatMap fun byte => [byte / 16, byte % 16]

/-- The samples of a block. -/
def recursion (channel : Nat) (buf : Bytes) (block : Nat) : List Int :=
  ((nibbles (msBody channel buf block)).foldl (Recursion.next channel (byteAt buf))
    (Recursion.header channel buf)).samples

theorem nibbles_length (bytes : List Nat) : (nibbles bytes).length = 2 * bytes.length := by
  induction bytes with
  | nil => rfl
  | cons byte bytes ih =>
    simp only [nibbles, List.flatMap_cons, List.length_append, List.length_cons] at ih ⊢
    rw [ih]
    simp only [List.length_nil]
    omega

theorem foldl_next_length (channel : Nat) (bpred : Nat → Nat) (r : Recursion) (codes : List Nat) :
    (codes.foldl (Recursion.next channel bpred) r).samples.length =
      r.samples.length + codes.length := by
  induction codes generalizing r with
  | nil => rfl
  | cons code codes ih =>
    rw [List.foldl_cons, ih, Recursion.next, List.length_append, List.length_cons]
    simp only [List.length_cons, List.length_nil]
    omega

theorem recursion_length (channel : Nat) (buf : Bytes) (block : Nat) :
    (recursion channel buf block).length = 2 * channel + 2 * (block - 7 * channel) := by
  rw [recursion, foldl_next_length, nibbles_length, msBody, Recursion.header]
  simp
  omega

/-! ### The bytes that the loop reads -/

section loop_
variable {beyond : Nat → Int × Int} {channel : Nat} {buf : Bytes} {block : Nat}

/-- The pass that reads a byte. -/
theorem body_first (st : MsState) {i blockindx : Nat} (heven : i % 2 = 0)
    (hmore : blockindx < block) :
    Loop.body beyond channel buf block ⟨st, i, blockindx, i⟩ =
      ⟨msPass beyond channel false (msRead channel st (byteAt buf blockindx)), i + 1, blockindx + 1,
        i + 2⟩ := by
  have hread : Loop.read channel buf block ⟨st, i, blockindx, i⟩ =
      ⟨msRead channel st (byteAt buf blockindx), i, blockindx + 1, i + 2⟩ :=
    if_pos ⟨Nat.le_refl i, hmore⟩
  have hfirst : decide (1 < channel ∧ i % 2 = 1) = false := decide_eq_false (by omega)
  rw [Loop.body, hread, hfirst]

/-- The pass after it. -/
theorem body_second (st : MsState) {i blockindx : Nat} (heven : i % 2 = 0)
    (hch : channel = 1 ∨ channel = 2) :
    Loop.body beyond channel buf block ⟨st, i + 1, blockindx, i + 2⟩ =
      ⟨msPass beyond channel (channel = 2) st, i + 2, blockindx, i + 2⟩ := by
  have hread : Loop.read channel buf block ⟨st, i + 1, blockindx, i + 2⟩ =
      ⟨st, i + 1, blockindx, i + 2⟩ :=
    if_neg fun h => Nat.not_succ_le_self (i + 1) h.1
  have hsecond : decide (1 < channel ∧ (i + 1) % 2 = 1) = decide (channel = 2) :=
    decide_eq_decide.mpr (by omega)
  rw [Loop.body, hread, hsecond]

theorem loop_done {l : Loop} (fuel : Nat) (h : ¬ l.blockindx < block) :
    loop beyond channel buf block (fuel + 1) l = some l :=
  if_neg h

theorem loop_more {l : Loop} (fuel : Nat) (h : l.blockindx < block) :
    loop beyond channel buf block (fuel + 1) l =
      loop beyond channel buf block fuel (l.body beyond channel buf block) :=
  if_pos h

/-- The loop ends, after two passes for every byte but the last. -/
theorem loop_eq (hch : channel = 1 ∨ channel = 2) (rest fuel : Nat) (st : MsState)
    {i blockindx : Nat}
    (hfuel : 2 * rest < fuel) (heven : i % 2 = 0) (hrest : block = blockindx + rest) :
    ∃ r, loop beyond channel buf block fuel ⟨st, i, blockindx, i⟩ = some r ∧
      r.st = msLoop beyond channel st ((List.range' blockindx rest).map (byteAt buf)) := by
  induction rest generalizing fuel st i blockindx with
  | zero =>
    obtain ⟨fuel, rfl⟩ : ∃ n, fuel = n + 1 := ⟨fuel - 1, by omega⟩
    have hdone : ¬ blockindx < block := by omega
    exact ⟨_, loop_done fuel hdone, rfl⟩
  | succ rest ih =>
    obtain ⟨fuel, rfl⟩ : ∃ n, fuel = n + 2 := ⟨fuel - 2, by omega⟩
    have hmore : blockindx < block := by omega
    rw [loop_more (fuel + 1) hmore, body_first st heven hmore]
    cases rest with
    | zero =>
      have hdone : ¬ blockindx + 1 < block := by omega
      exact ⟨_, loop_done fuel hdone, rfl⟩
    | succ rest =>
      have hnext : blockindx + 1 < block := by omega
      rw [loop_more fuel hnext, body_second _ heven hch]
      exact ih fuel _ (by omega) (by omega) (by omega)

theorem msBody_eq (channel : Nat) (buf : Bytes) (block : Nat) :
    msBody channel buf block =
      (List.range' (7 * channel) (block - 7 * channel)).map (byteAt buf) := by
  rw [msBody, List.range'_eq_map_range, List.map_map]
  rfl

/-- What the loop leaves is what the list of bytes gives. -/
theorem decodeMsBlock_eq (hch : channel = 1 ∨ channel = 2) (hblock : 7 * channel ≤ block) :
    decodeMsBlock beyond channel buf block =
      some (msAdpcmDecodeBlock beyond channel buf block) := by
  have hloop : ∃ r, loop beyond channel buf block (2 * block + 1)
        ⟨msHeader channel buf, 2 * channel, 7 * channel, 2 * channel⟩ = some r ∧
      r.st = msLoop beyond channel (msHeader channel buf)
        ((List.range' (7 * channel) (block - 7 * channel)).map (byteAt buf)) :=
    loop_eq hch _ _ _ (by omega) (by omega) (by omega)
  obtain ⟨r, hr, hst⟩ := hloop
  rw [decodeMsBlock, hr, Option.map_some, hst, ← msBody_eq]
  rfl

end loop_

/-! ### The window and the array -/

/-- The samples that were handed out and those of the window are the array so far; the step sizes
    and the predictors are those of the channels. -/
structure Window (channel : Nat) (bpred : Nat → Nat) (st : MsState) (r : Recursion) : Prop where
  samples : st.samples channel = r.samples
  delta : st.idelta.1 = r.delta 0
  delta' : channel = 2 → st.idelta.2 = r.delta 1
  first : st.bpred.1 = bpred 0
  second : channel = 2 → st.bpred.2 = bpred 1

section window_
variable {beyond : Nat → Int × Int} {bpred : Nat → Nat} {st : MsState} {r : Recursion}

/-- A pass for one channel. -/
theorem pass_mono (h : Window 1 bpred st r) {bytecode : Nat} (hcode : (st.s2 % 16).toNat = bytecode)
    (hpred : bpred 0 < 7) :
    Window 1 bpred (msPass beyond 1 false st) (r.next 1 bpred bytecode) := by
  have hsamples : r.samples = st.out ++ [st.s0, st.s1] := h.samples.symm
  have hlength : r.samples.length = st.out.length + 2 := by rw [hsamples]; simp
  have hnew : r.samples.getD (r.samples.length - 1) 0 = st.s1 := by
    rw [hlength, hsamples]
    simp
  have hold : r.samples.getD (r.samples.length - 2 * 1) 0 = st.s0 := by
    rw [hlength, hsamples]
    simp
  have hcoeff : adaptCoeff beyond st.bpred.1 =
      (adaptCoeff1.getD (bpred 0) 0, adaptCoeff2.getD (bpred 0) 0) := by
    rw [h.first, adaptCoeff, if_pos hpred]
  refine ⟨?_, ?_, fun hch => absurd hch (by decide), ?_, fun hch => absurd hch (by decide)⟩
  · simp only [Recursion.next, Nat.mod_one, hnew, hold]
    simp [MsState.samples, msPass, hcode, hcoeff, h.delta, hsamples]
  · simp only [Recursion.next, Nat.mod_one, Function.update_self]
    simp [msPass, hcode, h.delta]
  · simp [msPass, h.first]

/-- The samples that a pass for two channels reads. -/
theorem stereo_reads (h : Window 2 bpred st r) :
    r.samples.getD (r.samples.length - 2) 0 = st.s2 ∧
      r.samples.getD (r.samples.length - 2 * 2) 0 = st.s0 := by
  have hsamples : r.samples = st.out ++ [st.s0, st.s1, st.s2, st.s3] := h.samples.symm
  have hlength : r.samples.length = st.out.length + 4 := by rw [hsamples]; simp
  constructor
  · rw [hlength, hsamples]
    simp
  · rw [hlength, hsamples]
    simp

/-- A pass for the first of two channels. -/
theorem pass_stereo_first (h : Window 2 bpred st r) {bytecode : Nat}
    (hcode : (st.s4 % 16).toNat = bytecode) (hpred : bpred 0 < 7)
    (heven : r.samples.length % 2 = 0) :
    Window 2 bpred (msPass beyond 2 false st) (r.next 2 bpred bytecode) := by
  have hsamples : r.samples = st.out ++ [st.s0, st.s1, st.s2, st.s3] := h.samples.symm
  obtain ⟨hnew, hold⟩ := stereo_reads h
  have hcoeff : adaptCoeff beyond st.bpred.1 =
      (adaptCoeff1.getD (bpred 0) 0, adaptCoeff2.getD (bpred 0) 0) := by
    rw [h.first, adaptCoeff, if_pos hpred]
  refine ⟨?_, ?_, ?_, ?_, ?_⟩
  · simp only [Recursion.next, heven, hnew, hold]
    simp [MsState.samples, msPass, hcode, hcoeff, h.delta, hsamples]
  · simp only [Recursion.next, heven, Function.update_self]
    simp [msPass, hcode, h.delta]
  · intro hch
    simp only [Recursion.next, heven, Function.update_of_ne (by decide : 1 ≠ 0)]
    simpa [msPass] using h.delta' hch
  · simpa [msPass] using h.first
  · intro hch
    simpa [msPass] using h.second hch

/-- A pass for the second of two channels. -/
theorem pass_stereo_second (h : Window 2 bpred st r) {bytecode : Nat}
    (hcode : (st.s4 % 16).toNat = bytecode) (hpred : bpred 1 < 7)
    (hodd : r.samples.length % 2 = 1) :
    Window 2 bpred (msPass beyond 2 true st) (r.next 2 bpred bytecode) := by
  have hsamples : r.samples = st.out ++ [st.s0, st.s1, st.s2, st.s3] := h.samples.symm
  obtain ⟨hnew, hold⟩ := stereo_reads h
  have hcoeff : adaptCoeff beyond st.bpred.2 =
      (adaptCoeff1.getD (bpred 1) 0, adaptCoeff2.getD (bpred 1) 0) := by
    rw [h.second rfl, adaptCoeff, if_pos hpred]
  refine ⟨?_, ?_, ?_, ?_, ?_⟩
  · simp only [Recursion.next, hodd, hnew, hold]
    simp [MsState.samples, msPass, hcode, hcoeff, h.delta' rfl, hsamples]
  · simp only [Recursion.next, hodd, Function.update_of_ne (by decide : 0 ≠ 1)]
    simpa [msPass] using h.delta
  · intro hch
    simp only [Recursion.next, hodd, Function.update_self]
    simp [msPass, hcode, h.delta' hch]
  · simpa [msPass] using h.first
  · intro hch
    simpa [msPass] using h.second hch

/-! ### All passes -/

theorem read_window {channel : Nat} (h : Window channel bpred st r) (byte : Nat) :
    Window channel bpred (msRead channel st byte) r := by
  have hidelta : (msRead channel st byte).idelta = st.idelta := by
    rw [msRead]
    split_ifs <;> rfl
  refine ⟨(msRead_samples channel st byte).trans h.samples, ?_, ?_, ?_, ?_⟩
  · rw [hidelta, h.delta]
  · rw [hidelta]
    exact h.delta'
  · rw [msRead_bpred, h.first]
  · rw [msRead_bpred]
    exact h.second

/-- The first pass after a byte is read decodes its high nibble. -/
theorem first_window {channel : Nat} (hch : channel = 1 ∨ channel = 2)
    (h : Window channel bpred st r) {byte : Nat} (hbyte : byte < 256)
    (hpred : ∀ c < channel, bpred c < 7) (hwhole : r.samples.length % channel = 0) :
    Window channel bpred (msPass beyond channel false (msRead channel st byte))
      (r.next channel bpred (byte / 16)) := by
  have hread := read_window h byte
  rcases hch with rfl | rfl
  · exact pass_mono hread (by simp only [msRead, if_true]; omega) (hpred 0 (by decide))
  · exact pass_stereo_first hread (by simp only [msRead, Nat.reduceEqDiff, if_false]; omega)
      (hpred 0 (by decide)) hwhole

/-- The second one its low nibble. -/
theorem second_window {channel : Nat} (hch : channel = 1 ∨ channel = 2)
    (h : Window channel bpred st r) {byte : Nat} (hbyte : byte < 256)
    (hpred : ∀ c < channel, bpred c < 7) (hwhole : r.samples.length % channel = 0) :
    Window channel bpred
      (msPass beyond channel (channel = 2)
        (msPass beyond channel false (msRead channel st byte)))
      ((r.next channel bpred (byte / 16)).next channel bpred (byte % 16)) := by
  have hfirst : Window channel bpred (msPass beyond channel false (msRead channel st byte))
      (r.next channel bpred (byte / 16)) := first_window hch h hbyte hpred hwhole
  rcases hch with rfl | rfl
  · exact pass_mono hfirst (by simp only [msPass, msRead, if_true]; omega) (hpred 0 (by decide))
  · refine pass_stereo_second hfirst ?_ (hpred 1 (by decide)) ?_
    · simp only [msPass, msRead, Nat.reduceEqDiff, if_false]
      omega
    · simp only [Recursion.next, List.length_append, List.length_singleton]
      omega

theorem next_length (channel : Nat) (r : Recursion) (bytecode : Nat) :
    (r.next channel bpred bytecode).samples.length = r.samples.length + 1 := by
  rw [Recursion.next, List.length_append, List.length_singleton]

/-- The loop decodes every nibble of its bytes but the last one. -/
theorem msLoop_window {channel : Nat} (hch : channel = 1 ∨ channel = 2)
    (hpred : ∀ c < channel, bpred c < 7) (bytes : List Nat) (hbytes : ∀ byte ∈ bytes, byte < 256)
    (h : Window channel bpred st r) (hwhole : r.samples.length % channel = 0) :
    Window channel bpred (msLoop beyond channel st bytes)
      ((nibbles bytes).dropLast.foldl (Recursion.next channel bpred) r) := by
  induction bytes generalizing st r with
  | nil => exact h
  | cons byte rest ih =>
    have hbyte : byte < 256 := hbytes byte List.mem_cons_self
    cases rest with
    | nil => exact first_window hch h hbyte hpred hwhole
    | cons byte' rest =>
      have hnibbles : (nibbles (byte :: byte' :: rest)).dropLast =
          byte / 16 :: byte % 16 :: (nibbles (byte' :: rest)).dropLast := rfl
      rw [hnibbles, List.foldl_cons, List.foldl_cons]
      refine ih (fun b hb => hbytes b (List.mem_cons_of_mem _ hb))
        (second_window hch h hbyte hpred hwhole) ?_
      rw [next_length, next_length]
      rcases hch with rfl | rfl <;> omega

end window_

/-! ### A whole block -/

section block_
variable {beyond : Nat → Int × Int} {channel : Nat} {buf : Bytes} {block : Nat}

theorem header_window (hch : channel = 1 ∨ channel = 2) :
    Window channel (byteAt buf) (msHeader channel buf) (Recursion.header channel buf) := by
  rcases hch with rfl | rfl
  · refine ⟨?_, ?_, fun hch => absurd hch (by decide), ?_, fun hch => absurd hch (by decide)⟩
    all_goals simp [MsState.samples, msHeader, Recursion.header]
  · refine ⟨?_, ?_, fun _ => ?_, ?_, fun _ => ?_⟩
    all_goals simp [MsState.samples, msHeader, Recursion.header, List.range_succ]

theorem byteAt_lt (buf : Bytes) (i : Nat) : byteAt buf i < 256 := UInt8.toNat_lt _

/-- What the block gives is the recursion over all of its nibbles but the last. -/
theorem msAdpcmDecodeBlock_eq (hch : channel = 1 ∨ channel = 2)
    (hpred : ∀ c < channel, byteAt buf c < 7) :
    msAdpcmDecodeBlock beyond channel buf block =
      ((nibbles (msBody channel buf block)).dropLast.foldl (Recursion.next channel (byteAt buf))
        (Recursion.header channel buf)).samples := by
  have hwhole : (Recursion.header channel buf).samples.length % channel = 0 := by
    simp only [Recursion.header, List.length_append, List.length_map, List.length_range]
    rcases hch with rfl | rfl <;> rfl
  have hbytes : ∀ byte ∈ msBody channel buf block, byte < 256 := by
    intro byte hbyte
    obtain ⟨i, _, rfl⟩ := List.mem_map.mp hbyte
    exact byteAt_lt buf _
  have hwindow : Window channel (byteAt buf)
      (msLoop beyond channel (msHeader channel buf) (msBody channel buf block)) _ :=
    msLoop_window hch hpred _ hbytes (header_window hch) hwhole
  exact hwindow.samples

/-- A block of one byte and more lacks the sample of its last nibble. -/
theorem recursion_eq_append (beyond : Nat → Int × Int) (hch : channel = 1 ∨ channel = 2)
    (hpred : ∀ c < channel, byteAt buf c < 7) (hbody : 7 * channel < block) :
    ∃ last, recursion channel buf block =
      msAdpcmDecodeBlock beyond channel buf block ++ [last] := by
  have hnibbles : nibbles (msBody channel buf block) ≠ [] := by
    have hlength := nibbles_length (msBody channel buf block)
    rw [msBody, List.length_map, List.length_range] at hlength
    rw [← List.length_pos_iff, msBody]
    omega
  have hsplit := List.dropLast_concat_getLast hnibbles
  rw [recursion, ← hsplit, List.foldl_append, msAdpcmDecodeBlock_eq hch hpred]
  exact ⟨_, rfl⟩

/-- The block gives the samples of the recursion, all of them, exactly when it is a header and
    nothing more. -/
theorem decodeMsBlock_iff_header_only (beyond : Nat → Int × Int)
    (hch : channel = 1 ∨ channel = 2) (hblock : 7 * channel ≤ block)
    (hpred : ∀ c < channel, byteAt buf c < 7) :
    (decodeMsBlock beyond channel buf block = some (recursion channel buf block) ∧
      (recursion channel buf block).length = 2 * channel + 2 * (block - 7 * channel)) ↔
      block = 7 * channel := by
  rw [decodeMsBlock_eq hch hblock]
  constructor
  · rintro ⟨hall, _⟩
    by_contra hne
    have hbody : 7 * channel < block := by omega
    obtain ⟨last, hlast⟩ := recursion_eq_append beyond hch hpred hbody
    have hlength := congrArg List.length ((Option.some.inj hall).trans hlast)
    simp at hlength
  · rintro rfl
    refine ⟨?_, recursion_length ..⟩
    have hbody : msBody channel buf (7 * channel) = [] := by rw [msBody, Nat.sub_self]; rfl
    rw [msAdpcmDecodeBlock_eq hch hpred, recursion, hbody]
    rfl

end block_

/-- A stereo header. -/
def headerOnly : Bytes := [1, 6, 0x10, 0, 0x20, 0, 0x64, 0, 0xF6, 0xFF, 0x40, 0x01, 0, 0x80]

theorem headerOnly_iff :
    (decodeMsBlock (fun _ => (0, 0)) 2 headerOnly 14 = some (recursion 2 headerOnly 14) ∧
      (recursion 2 headerOnly 14).length = 2 * 2 + 2 * (14 - 7 * 2)) ↔ 14 = 7 * 2 :=
  decodeMsBlock_iff_header_only _ (.inr rfl) (by decide) (by decide)

/-- A mono block with one byte after its header: two nibbles, and one sample for them. -/
def oneByte : Bytes := [0, 0x10, 0, 0x64, 0, 0x32, 0, 0x21]

theorem oneByte_low_nibble_skipped :
    (∀ c < 1, byteAt oneByte c < 7) ∧
      decodeMsBlock (fun _ => (0, 0)) 1 oneByte 8 = some [50, 100, 132] ∧
      recursion 1 oneByte 8 = [50, 100, 132, 148] ∧
      decodeMsBlock (fun _ => (0, 0)) 1 oneByte 8 ≠ some (recursion 1 oneByte 8) := by
  decide

end Streambox.Adpcm.MsBlock
