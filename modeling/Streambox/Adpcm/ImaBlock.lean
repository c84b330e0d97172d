import Mathlib.Data.List.Nodup
import Mathlib.Logic.Function.Basic
import Mathlib.Tactic.Ring
import Streambox.Adpcm.Blocks

/-! libadpcm, `adpcmdec_decode_ima_block` as it is written: an array that is read back.

    The loop fills the sample buffer in place. A pass takes four bytes for each channel, and with
    them eight samples of it, a stride of `channels` apart; each is made from the one before it in
    the same channel.

        data      hdr0 hdr1 │ l l l l r r r r │ l l l l r r r r │ ..
        samples   L0 R0 L1 R1 L2 R2 .. L8 R8 L9 R9 ..

    `refAt` is the recursion of one channel on its own: the header, and then one step for each of
    its nibbles. The loop is tied to it by how far each channel has come. -/

namespace Streambox.Adpcm.ImaBlock

/-! ### The loop -/

/-- The variables of the loop. For the account: the channels whose step index was set, the positions
    that were written, those that were read from the data, and the indices that were looked up in
    the step table. -/
structure Loop where
  samples : Nat → Int
  stepindex : Nat → Int
  idx : Nat
  opened : List Nat
  written : List Nat
  read : List Nat
  looked : List Int

/-- The buffer as it is before the block. -/
def Loop.start (samples : Nat → Int) : Loop := ⟨samples, fun _ => 0, 0, [], [], [], []⟩

/-- `samples[p] = v`. -/
def Loop.write (st : Loop) (p : Nat) (v : Int) : Loop :=
  { st with samples := Function.update st.samples p v, written := st.written ++ [p] }

/-- The nibble of a turn, and the byte index after it. -/
def bytecodeAt (data : Bytes) (idx j : Nat) : Nat × Nat :=
  if j % 2 = 0 then (byteAt data idx % 16, idx) else (byteAt data idx / 16 % 16, idx + 1)

/-- One turn of the innermost loop, for the sample at `sample`. -/
def turn (data : Bytes) (channels channel sample j : Nat) (st : Loop) : Loop :=
  let bytecode := (bytecodeAt data st.idx j).1
  let step := adpcmStep.getD (st.stepindex channel).toNat 0
  let diff := (2 * ((bytecode % 8 : Nat) : Int) * step + step) / 8
  let diff := if bytecode / 8 = 1 then -diff else diff
  { st.write sample (clamp (st.samples (sample - channels) + diff) (-32768) 32767) with
    stepindex := Function.update st.stepindex channel
      (clamp (st.stepindex channel + adpcmIndex.getD bytecode 0) 0 88)
    idx := (bytecodeAt data st.idx j).2
    read := st.read ++ [st.idx]
    looked := st.looked ++ [st.stepindex channel] }

/-- The first `k` turns for a channel, from position `sample` on. -/
def turns (data : Bytes) (channels channel sample : Nat) : Nat → Loop → Loop
  | 0, st => st
  | j + 1, st =>
    turn data channels channel (sample + j * channels) j
      (turns data channels channel sample j st)

/-- A pass: eight turns for each of the first `k` channels. -/
def pass (data : Bytes) (channels i : Nat) : Nat → Loop → Loop
  | 0, st => st
  | k + 1, st => turns data channels k (i + k) 8 (pass data channels i k st)

/-- `while (i < n_samples)`, for at most `fuel` passes. -/
def passes (data : Bytes) (channels : Nat) (nSamples : Int) : Nat → Nat → Loop → Option Loop
  | 0, _, _ => none
  | fuel + 1, i, st =>
    if (i : Int) < nSamples then
      passes data channels nSamples fuel (i + 8 * channels) (pass data channels i channels st)
    else some st

/-- The header of a channel. -/
def Loop.openChannel (data : Bytes) (channel : Nat) (st : Loop) : Loop :=
  { st.write channel (shortAt data (channel * 4)) with
    stepindex := Function.update st.stepindex channel (min (byteAt data (channel * 4 + 2)) 88)
    opened := st.opened ++ [channel]
    read := st.read ++ (List.range 4).map (channel * 4 + ·) }

/-- The headers of the first `k` channels, and whether there was no synchronisation error. -/
def headers (data : Bytes) : Nat → Loop → Loop × Bool
  | 0, st => (st, true)
  | channel + 1, st =>
    if (headers data channel st).2 then
      ((headers data channel st).1.openChannel data channel,
        decide (byteAt data (channel * 4 + 3) = 0))
    else headers data channel st

/-- `adpcmdec_decode_ima_block`: the variables when it returns, and what it returns. -/
def decodeImaBlock (channels : Nat) (nSamples : Int) (data : Bytes) (samples : Nat → Int) :
    Option (Loop × Bool) :=
  if (nSamples - channels).tmod 8 ≠ 0 then some (.start samples, false)
  else if (headers data channels (.start samples)).2 then
    (passes data channels nSamples (nSamples.toNat + 1) channels
      { (headers data channels (.start samples)).1 with idx := 4 * channels }).map (·, true)
  else some (headers data channels (.start samples))

/-! ### The recursion of a channel -/

/-- The nibbles of a channel: in groups of four bytes that alternate with the other channel's, low
    ones first. -/
def codeAt (data : Bytes) (channels c m : Nat) : Nat :=
  byteAt data (4 * channels + 4 * channels * (m / 8) + 4 * c + m % 8 / 2) /
    (if m % 2 = 0 then 1 else 16) % 16

/-- A channel after `m` of its nibbles. -/
def refAt (data : Bytes) (channels c : Nat) : Nat → ImaChannel
  | 0 => imaHeader data c
  | m + 1 => (refAt data channels c m).next (codeAt data channels c m)

theorem clamp_bounds (x : Int) {lo hi : Int} (h : lo ≤ hi) :
    lo ≤ clamp x lo hi ∧ clamp x lo hi ≤ hi := by
  rw [clamp]
  split
  · omega
  · split <;> omega

/-- The step index and the predictor stay in their ranges. -/
theorem refAt_bounds (data : Bytes) (channels c m : Nat) :
    (refAt data channels c m).stepindex ≤ 88 ∧
      -32768 ≤ (refAt data channels c m).sample ∧ (refAt data channels c m).sample ≤ 32767 := by
  cases m with
  | zero =>
    refine ⟨Nat.min_le_right _ _, ?_⟩
    have hlo := Int.le_bmod
      (x := (byteAt data (4 * c) + 256 * byteAt data (4 * c + 1) : Int)) (m := 65536) (by decide)
    have hhi := Int.bmod_le
      (x := (byteAt data (4 * c) + 256 * byteAt data (4 * c + 1) : Int)) (m := 65536) (by decide)
    simp only [refAt, imaHeader, shortAt, toShort]
    omega
  | succ m =>
    have hstep := clamp_bounds ((refAt data channels c m).stepindex +
      adpcmIndex.getD (codeAt data channels c m) 0) (by decide : (0 : Int) ≤ 88)
    refine ⟨?_, clamp_bounds _ (by decide)⟩
    simp only [refAt, ImaChannel.next]
    omega

/-! ### How far each channel has come -/

/-- The first `progress c` nibbles of every channel `c` are decoded: what the buffer holds, and that
    nothing else was written. -/
structure Decoded (data : Bytes) (channels : Nat) (start : Nat → Int) (progress : Nat → Nat)
    (st : Loop) : Prop where
  samples : ∀ c < channels, ∀ k ≤ progress c,
    st.samples (c + channels * k) = (refAt data channels c k).sample
  stepindex : ∀ c < channels, st.stepindex c = (refAt data channels c (progress c)).stepindex
  nodup : st.written.Nodup
  written : ∀ p, p ∈ st.written ↔ ∃ c < channels, ∃ k ≤ progress c, p = c + channels * k
  kept : ∀ p, p ∉ st.written → st.samples p = start p
  opened : st.opened = List.range channels
  read : ∀ i, i ∈ st.read ↔ i < 4 * channels ∨ ∃ c < channels, ∃ q < progress c,
    i = 4 * channels + 4 * channels * (q / 8) + 4 * c + q % 8 / 2
  looked : ∀ x ∈ st.looked, 0 ≤ x ∧ x ≤ 88

/-- A position belongs to one channel, and to one sample of it. -/
theorem position_inj {channels c c' k k' : Nat} (hc : c < channels) (hc' : c' < channels)
    (h : c + channels * k = c' + channels * k') : c = c' ∧ k = k' := by
  have hmod := congrArg (· % channels) h
  simp only [Nat.add_mul_mod_self_left, Nat.mod_eq_of_lt hc, Nat.mod_eq_of_lt hc'] at hmod
  subst hmod
  exact ⟨rfl, Nat.eq_of_mul_eq_mul_left (Nat.zero_lt_of_lt hc) (by omega)⟩

/-- The nibble of a turn is the next one of its channel. -/
theorem bytecodeAt_eq {data : Bytes} {channels c t j : Nat} (hj : j < 8) :
    bytecodeAt data (4 * channels + 4 * channels * t + 4 * c + j / 2) j =
      (codeAt data channels c (8 * t + j),
        4 * channels + 4 * channels * t + 4 * c + (j + 1) / 2) := by
  have hgroup : (8 * t + j) / 8 = t := by omega
  have hplace : (8 * t + j) % 8 / 2 = j / 2 := by omega
  rw [bytecodeAt, codeAt, hgroup, hplace]
  split
  · next heven =>
    have hcode : (8 * t + j) % 2 = 0 := by omega
    rw [if_pos hcode, Nat.div_one]
    have hidx : (j + 1) / 2 = j / 2 := by omega
    rw [hidx]
  · next hodd =>
    have hcode : ¬ (8 * t + j) % 2 = 0 := by omega
    rw [if_neg hcode]
    have hidx : (j + 1) / 2 = j / 2 + 1 := by omega
    rw [hidx, Nat.add_assoc _ (j / 2) 1]

section turn_
variable {data : Bytes} {channels c t j : Nat} {start : Nat → Int} {progress : Nat → Nat}
  {st : Loop}

/-- The index of a table entry is the channel's step index; the value that is written and the step
    index after it are those of one step of the recursion. -/
theorem turn_eq (h : Decoded data channels start progress st) (hc : c < channels) (hj : j < 8)
    (hprogress : progress c = 8 * t + j)
    (hidx : st.idx = 4 * channels + 4 * channels * t + 4 * c + j / 2) :
    turn data channels c (c + channels * (8 * t + j + 1)) j st =
      { samples := Function.update st.samples (c + channels * (8 * t + j + 1))
          (refAt data channels c (8 * t + j + 1)).sample
        stepindex := Function.update st.stepindex c
          (refAt data channels c (8 * t + j + 1)).stepindex
        idx := 4 * channels + 4 * channels * t + 4 * c + (j + 1) / 2
        opened := st.opened
        read := st.read ++ [4 * channels + 4 * channels * t + 4 * c + j / 2]
        written := st.written ++ [c + channels * (8 * t + j + 1)]
        looked := st.looked ++ [((refAt data channels c (8 * t + j)).stepindex : Int)] } := by
  have hstep := h.stepindex c hc
  have hlast := h.samples c hc (8 * t + j) (by omega)
  rw [hprogress] at hstep
  have hback : c + channels * (8 * t + j + 1) - channels = c + channels * (8 * t + j) := by
    rw [Nat.mul_succ]
    omega
  have hbounds := clamp_bounds ((refAt data channels c (8 * t + j)).stepindex +
    adpcmIndex.getD (codeAt data channels c (8 * t + j)) 0) (by decide : (0 : Int) ≤ 88)
  rw [turn, hidx, bytecodeAt_eq hj]
  simp only [Loop.write, hback, hstep, hlast, Int.toNat_natCast, refAt, ImaChannel.next,
    Int.toNat_of_nonneg hbounds.1]

theorem turn_decoded (h : Decoded data channels start progress st) (hc : c < channels) (hj : j < 8)
    (hprogress : progress c = 8 * t + j)
    (hidx : st.idx = 4 * channels + 4 * channels * t + 4 * c + j / 2) :
    Decoded data channels start (Function.update progress c (8 * t + j + 1))
      (turn data channels c (c + channels * (8 * t + j + 1)) j st) := by
  rw [turn_eq h hc hj hprogress hidx]
  have hfresh : c + channels * (8 * t + j + 1) ∉ st.written := by
    rw [h.written]
    rintro ⟨c', hc', k, hk, heq⟩
    obtain ⟨rfl, rfl⟩ := position_inj hc hc' heq
    omega
  refine ⟨?_, ?_, ?_, ?_, ?_, h.opened, ?_, ?_⟩
  · intro c' hc' k hk
    by_cases hsame : c' = c
    · subst hsame
      rw [Function.update_self] at hk
      rcases Nat.lt_or_ge (8 * t + j) k with hlast | hearlier
      · obtain rfl : k = 8 * t + j + 1 := by omega
        exact Function.update_self ..
      · have hne : c' + channels * k ≠ c' + channels * (8 * t + j + 1) := by
          intro heq
          have hk' := (position_inj hc hc heq).2
          omega
        exact (Function.update_of_ne hne ..).trans (h.samples c' hc k (by omega))
    · rw [Function.update_of_ne hsame] at hk
      have hne : c' + channels * k ≠ c + channels * (8 * t + j + 1) := by
        intro heq
        exact hsame (position_inj hc' hc heq).1
      exact (Function.update_of_ne hne ..).trans (h.samples c' hc' k hk)
  · intro c' hc'
    by_cases hsame : c' = c
    · subst hsame
      simp only [Function.update_self]
    · simp only [Function.update_of_ne hsame]
      exact h.stepindex c' hc'
  · exact List.nodup_append.mpr ⟨h.nodup, List.nodup_singleton _, by
      intro a ha b hb heq
      rw [List.mem_singleton] at hb
      exact hfresh (hb ▸ heq ▸ ha)⟩
  · intro p
    rw [List.mem_append, List.mem_singleton, h.written]
    constructor
    · rintro (⟨c', hc', k, hk, rfl⟩ | rfl)
      · refine ⟨c', hc', k, ?_, rfl⟩
        by_cases hsame : c' = c
        · subst hsame
          rw [Function.update_self]
          omega
        · rwa [Function.update_of_ne hsame]
      · exact ⟨c, hc, 8 * t + j + 1, by rw [Function.update_self], rfl⟩
    · rintro ⟨c', hc', k, hk, rfl⟩
      by_cases hsame : c' = c
      · subst hsame
        rw [Function.update_self] at hk
        rcases Nat.lt_or_ge (8 * t + j) k with hlast | hearlier
        · obtain rfl : k = 8 * t + j + 1 := by omega
          exact .inr rfl
        · exact .inl ⟨c', hc, k, by omega, rfl⟩
      · rw [Function.update_of_ne hsame] at hk
        exact .inl ⟨c', hc', k, hk, rfl⟩
  · intro p hp
    rw [List.mem_append, List.mem_singleton, not_or] at hp
    exact (Function.update_of_ne hp.2 ..).trans (h.kept p hp.1)
  · intro i
    rw [List.mem_append, List.mem_singleton, h.read, or_assoc]
    refine or_congr_right ⟨?_, ?_⟩
    · rintro (⟨c', hc', q, hq, rfl⟩ | rfl)
      · refine ⟨c', hc', q, ?_, rfl⟩
        by_cases hsame : c' = c
        · subst hsame
          rw [Function.update_self]
          omega
        · rwa [Function.update_of_ne hsame]
      · refine ⟨c, hc, 8 * t + j, by rw [Function.update_self]; omega, ?_⟩
        have hgroup : (8 * t + j) / 8 = t := by omega
        have hplace : (8 * t + j) % 8 = j := by omega
        rw [hgroup, hplace]
    · rintro ⟨c', hc', q, hq, rfl⟩
      by_cases hsame : c' = c
      · subst hsame
        rw [Function.update_self] at hq
        rcases Nat.lt_or_ge q (8 * t + j) with hearlier | hlast
        · exact .inl ⟨c', hc, q, by omega, rfl⟩
        · obtain rfl : q = 8 * t + j := by omega
          have hgroup : (8 * t + j) / 8 = t := by omega
          have hplace : (8 * t + j) % 8 = j := by omega
          rw [hgroup, hplace]
          exact .inr rfl
      · rw [Function.update_of_ne hsame] at hq
        exact .inl ⟨c', hc', q, hq, rfl⟩
  · intro x hx
    rcases List.mem_append.mp hx with hold | hnew
    · exact h.looked x hold
    · rw [List.mem_singleton.mp hnew]
      have hbounds := (refAt_bounds data channels c (8 * t + j)).1
      omega

/-- The turns of a channel in a pass. -/
theorem turns_decoded (h : Decoded data channels start progress st) (hc : c < channels)
    (hprogress : progress c = 8 * t) (hidx : st.idx = 4 * channels + 4 * channels * t + 4 * c)
    (k : Nat) (hk : k ≤ 8) :
    Decoded data channels start (Function.update progress c (8 * t + k))
        (turns data channels c (channels + 8 * channels * t + c) k st) ∧
      (turns data channels c (channels + 8 * channels * t + c) k st).idx =
        4 * channels + 4 * channels * t + 4 * c + k / 2 := by
  induction k with
  | zero =>
    rw [Nat.add_zero, ← hprogress, Function.update_eq_self]
    exact ⟨h, hidx⟩
  | succ k ih =>
    obtain ⟨hdec, hat⟩ := ih (by omega)
    have hplace : channels + 8 * channels * t + c + k * channels =
        c + channels * (8 * t + k + 1) := by ring
    have hself : Function.update progress c (8 * t + k) c = 8 * t + k := Function.update_self ..
    rw [turns, hplace]
    refine ⟨?_, ?_⟩
    · have hnext := turn_decoded hdec hc (by omega) hself hat
      rwa [Function.update_idem] at hnext
    · rw [turn_eq hdec hc (by omega) hself hat]

end turn_

/-! ### Passes -/

section passes_
variable {data : Bytes} {channels t : Nat} {start : Nat → Int} {st : Loop}

/-- The channels of a pass, one after the other. -/
theorem pass_decoded (h : Decoded data channels start (fun _ => 8 * t) st)
    (hidx : st.idx = 4 * channels + 4 * channels * t) (k : Nat) (hk : k ≤ channels) :
    Decoded data channels start (fun c => if c < k then 8 * (t + 1) else 8 * t)
        (pass data channels (channels + 8 * channels * t) k st) ∧
      (pass data channels (channels + 8 * channels * t) k st).idx =
        4 * channels + 4 * channels * t + 4 * k := by
  induction k with
  | zero => exact ⟨by simpa [pass] using h, hidx⟩
  | succ k ih =>
    obtain ⟨hdec, hat⟩ := ih (by omega)
    obtain ⟨hnext, hnextAt⟩ := turns_decoded hdec hk (if_neg (by omega)) hat 8 (Nat.le_refl 8)
    have hprogress : Function.update (fun c => if c < k then 8 * (t + 1) else 8 * t) k (8 * t + 8) =
        fun c => if c < k + 1 then 8 * (t + 1) else 8 * t := by
      funext c
      by_cases hsame : c = k
      · subst hsame
        rw [Function.update_self, if_pos (by omega)]
        omega
      · rw [Function.update_of_ne hsame]
        exact if_congr (by omega) rfl rfl
    rw [hprogress] at hnext
    exact ⟨hnext, by rw [pass, hnextAt]; omega⟩

/-- A whole pass takes every channel eight samples on. -/
theorem pass_all (h : Decoded data channels start (fun _ => 8 * t) st)
    (hidx : st.idx = 4 * channels + 4 * channels * t) :
    Decoded data channels start (fun _ => 8 * (t + 1))
        (pass data channels (channels + 8 * channels * t) channels st) ∧
      (pass data channels (channels + 8 * channels * t) channels st).idx =
        4 * channels + 4 * channels * (t + 1) := by
  obtain ⟨hdec, hat⟩ := pass_decoded h hidx channels (Nat.le_refl _)
  refine ⟨⟨?_, ?_, hdec.nodup, ?_, hdec.kept, hdec.opened, ?_, hdec.looked⟩, by rw [hat]; ring⟩
  · intro c hc k hk
    exact hdec.samples c hc k (by rwa [if_pos hc])
  · intro c hc
    have hstep := hdec.stepindex c hc
    rwa [if_pos hc] at hstep
  · intro p
    rw [hdec.written]
    refine exists_congr fun c => and_congr_right fun hc => ?_
    rw [if_pos hc]
  · intro i
    rw [hdec.read]
    refine or_congr_right (exists_congr fun c => and_congr_right fun hc => ?_)
    rw [if_pos hc]

/-- The loop ends after the passes that its condition allows. -/
theorem passes_decoded {nSamples : Int} (rest fuel : Nat) (hfuel : rest < fuel)
    (hmore : ∀ u < rest, ((channels + 8 * channels * (t + u) : Nat) : Int) < nSamples)
    (hlast : nSamples ≤ ((channels + 8 * channels * (t + rest) : Nat) : Int))
    (h : Decoded data channels start (fun _ => 8 * t) st)
    (hidx : st.idx = 4 * channels + 4 * channels * t) :
    ∃ r, passes data channels nSamples fuel (channels + 8 * channels * t) st = some r ∧
      Decoded data channels start (fun _ => 8 * (t + rest)) r ∧
      r.idx = 4 * channels + 4 * channels * (t + rest) := by
  induction rest generalizing t st fuel with
  | zero =>
    obtain ⟨fuel, rfl⟩ : ∃ n, fuel = n + 1 := ⟨fuel - 1, by omega⟩
    refine ⟨st, ?_, h, hidx⟩
    rw [passes, if_neg (by rw [Nat.add_zero] at hlast; omega)]
  | succ rest ih =>
    obtain ⟨fuel, rfl⟩ : ∃ n, fuel = n + 1 := ⟨fuel - 1, by omega⟩
    have hfirst := hmore 0 (Nat.succ_pos rest)
    rw [Nat.add_zero] at hfirst
    have hplace : channels + 8 * channels * t + 8 * channels =
        channels + 8 * channels * (t + 1) := by ring
    have hcount : t + (rest + 1) = t + 1 + rest := by omega
    obtain ⟨hnext, hnextAt⟩ := pass_all h hidx
    rw [passes, if_pos hfirst, hplace, hcount]
    refine ih fuel (by omega) ?_ (hcount ▸ hlast) hnext hnextAt
    intro u hu
    have hthis := hmore (u + 1) (by omega)
    rwa [← Nat.add_assoc, Nat.add_right_comm] at hthis

/-- The headers of the first channels, as long as their last bytes are zero. -/
theorem headers_eq (samples : Nat → Int) (k : Nat)
    (hzero : ∀ c < k, byteAt data (4 * c + 3) = 0) :
    ∃ st, headers data k (.start samples) = (st, true) ∧
      (∀ c < k, st.samples c = (imaHeader data c).sample ∧
        st.stepindex c = (imaHeader data c).stepindex) ∧
      (∀ p, k ≤ p → st.samples p = samples p) ∧ st.opened = List.range k ∧
      st.written = List.range k ∧ st.read = List.range (4 * k) ∧ st.looked = [] := by
  induction k with
  | zero => exact ⟨_, rfl, by simp, fun _ _ => rfl, rfl, rfl, rfl, rfl⟩
  | succ k ih =>
    obtain ⟨st, hst, hread, hkept, hopened, hwritten, hbytes, hlooked⟩ :=
      ih fun c hc => hzero c (by omega)
    have hlast : byteAt data (k * 4 + 3) = 0 := by
      rw [Nat.mul_comm]
      exact hzero k (by omega)
    rw [headers, hst, if_pos rfl, hlast]
    refine ⟨_, rfl, ?_, ?_, ?_, ?_, ?_, hlooked⟩
    · intro c hc
      by_cases hsame : c = k
      · subst hsame
        simp only [Loop.openChannel, Loop.write, Function.update_self, imaHeader, Nat.mul_comm c 4]
        exact ⟨trivial, by omega⟩
      · simp only [Loop.openChannel, Loop.write, Function.update_of_ne hsame]
        exact hread c (by omega)
    · intro p hp
      exact (Function.update_of_ne (by omega) ..).trans (hkept p (by omega))
    · rw [List.range_succ, ← hopened]
      rfl
    · rw [List.range_succ, ← hwritten]
      rfl
    · rw [Nat.mul_succ, List.range_add, ← hbytes, Nat.mul_comm 4 k]
      rfl

/-- The first header whose last byte is not zero is read, and the one that is read last. -/
theorem headers_error (samples : Nat → Int) {k e : Nat} (he : e < k)
    (hzero : ∀ c < e, byteAt data (4 * c + 3) = 0) (herror : byteAt data (4 * e + 3) ≠ 0) :
    ∃ st, headers data k (.start samples) = (st, false) ∧ st.opened = List.range (e + 1) ∧
      st.written = List.range (e + 1) ∧ st.read = List.range (4 * (e + 1)) ∧ st.looked = [] := by
  induction k with
  | zero => exact absurd he (Nat.not_lt_zero e)
  | succ k ih =>
    rcases Nat.lt_succ_iff_lt_or_eq.mp he with hlt | rfl
    · obtain ⟨st, hst, hrest⟩ := ih hlt
      exact ⟨st, by rw [headers, hst, if_neg Bool.false_ne_true], hrest⟩
    · obtain ⟨st, hst, -, -, hopened, hwritten, hbytes, hlooked⟩ := headers_eq samples e hzero
      have hlast : byteAt data (e * 4 + 3) ≠ 0 := by rwa [Nat.mul_comm]
      refine ⟨st.openChannel data e, ?_, ?_, ?_, ?_, hlooked⟩
      · rw [headers, hst, if_pos rfl, decide_eq_false hlast]
      · rw [List.range_succ, ← hopened]
        rfl
      · rw [List.range_succ, ← hwritten]
        rfl
      · rw [Nat.mul_succ, List.range_add, ← hbytes, Nat.mul_comm 4 e]
        rfl

/-- After the headers every channel is at the start of its nibbles. -/
theorem headers_decoded (samples : Nat → Int)
    (hzero : ∀ c < channels, byteAt data (4 * c + 3) = 0) :
    ∃ st, headers data channels (.start samples) = (st, true) ∧
      Decoded data channels samples (fun _ => 8 * 0) { st with idx := 4 * channels } := by
  obtain ⟨st, hst, hread, hkept, hopened, hwritten, hbytes, hlooked⟩ :=
    headers_eq samples channels hzero
  refine ⟨st, hst, ?_, ?_, ?_, ?_, ?_, hopened, ?_, ?_⟩
  · intro c hc k hk
    obtain rfl : k = 0 := by omega
    exact (hread c hc).1
  · intro c hc
    exact (hread c hc).2
  · simpa [hwritten] using List.nodup_range
  · intro p
    rw [hwritten, List.mem_range]
    constructor
    · intro hp
      exact ⟨p, hp, 0, Nat.zero_le _, by omega⟩
    · rintro ⟨c, hc, k, hk, rfl⟩
      obtain rfl : k = 0 := by omega
      omega
  · intro p hp
    rw [hwritten, List.mem_range] at hp
    exact hkept p (by omega)
  · intro i
    rw [hbytes, List.mem_range]
    constructor
    · exact .inl
    · rintro (hi | ⟨c, -, q, hq, -⟩)
      · exact hi
      · exact absurd hq (by omega)
  · simp [hlooked]

end passes_

/-! ### A whole block -/

/-- The number of samples of a block, as the driver counts them. -/
def sampleCount (channels : Nat) (data : Bytes) : Int :=
  2 * ((data.length : Int) - 4 * channels) + channels

/-- A position of the buffer, as a sample of a channel. -/
theorem position_eq {channels : Nat} (hch : 0 < channels) (p : Nat) :
    p % channels < channels ∧ p = p % channels + channels * (p / channels) :=
  ⟨Nat.mod_lt p hch, (Nat.mod_add_div p channels).symm⟩

/-- The samples that are written are the front of the buffer. -/
theorem lt_count_iff {channels c k groups : Nat} (hc : c < channels) :
    c + channels * k < channels + 8 * channels * groups ↔ k ≤ 8 * groups := by
  have hcount : channels + 8 * channels * groups = channels * (8 * groups + 1) := by ring
  rw [hcount]
  constructor
  · intro h
    by_contra hk
    have hmul := Nat.mul_le_mul_left channels (by omega : 8 * groups + 1 ≤ k)
    omega
  · intro hk
    have hmul := Nat.mul_le_mul_left channels hk
    rw [Nat.mul_succ]
    omega

/-- After whole groups the front of the buffer is written. -/
theorem Decoded.mem_written {data : Bytes} {channels count : Nat} {start : Nat → Int} {r : Loop}
    (h : Decoded data channels start (fun _ => 8 * count) r) (hch : 0 < channels) (p : Nat) :
    p ∈ r.written ↔ p < channels + 8 * channels * count := by
  obtain ⟨hc, hp⟩ := position_eq hch p
  rw [h.written]
  constructor
  · rintro ⟨c, hc', k, hk, rfl⟩
    exact (lt_count_iff hc').mpr hk
  · intro hlt
    rw [hp, lt_count_iff hc] at hlt
    exact ⟨_, hc, _, hlt, hp⟩

section block_
variable {data : Bytes} {channels : Nat}

/-- A block of whole groups, and how many samples it has. -/
theorem groups_of_dvd (hch : channels = 1 ∨ channels = 2) (hpos : 0 < data.length)
    (hdvd : 4 * channels ∣ data.length) :
    ∃ groups, data.length = 4 * channels + 4 * channels * groups ∧
      sampleCount channels data = ((channels + 8 * channels * groups : Nat) : Int) := by
  obtain ⟨blocks, hblocks⟩ := hdvd
  have hblocks_pos : blocks ≠ 0 := by
    rintro rfl
    omega
  obtain ⟨groups, rfl⟩ := Nat.exists_eq_succ_of_ne_zero hblocks_pos
  have hlength : data.length = 4 * channels + 4 * channels * groups := by
    rw [hblocks, Nat.mul_succ, Nat.add_comm]
  refine ⟨groups, hlength, ?_⟩
  rw [sampleCount, hlength, ← imaSampleCount_eq hch]
  ring

/-- A block that the size check accepts and whose headers are in order is decoded, for as many
    passes as the loop's condition allows. -/
theorem decodeImaBlock_accepted {nSamples : Int} (hch : 0 < channels)
    (hsize : (nSamples - channels).tmod 8 = 0)
    (hzero : ∀ c < channels, byteAt data (4 * c + 3) = 0) (count : Nat)
    (hmore : ∀ u < count, ((channels + 8 * channels * u : Nat) : Int) < nSamples)
    (hlast : nSamples ≤ ((channels + 8 * channels * count : Nat) : Int)) (samples : Nat → Int) :
    ∃ r, decodeImaBlock channels nSamples data samples = some (r, true) ∧
      Decoded data channels samples (fun _ => 8 * count) r ∧
      r.idx = 4 * channels + 4 * channels * count := by
  have hfuel : count < nSamples.toNat + 1 := by
    rcases Nat.eq_zero_or_pos count with rfl | hpos
    · exact Nat.succ_pos _
    · have hlt := hmore (count - 1) (by omega)
      have hmul := Nat.mul_le_mul_right (count - 1) (by omega : 1 ≤ 8 * channels)
      omega
  obtain ⟨st, hst, hdec⟩ := headers_decoded samples hzero
  obtain ⟨r, hr, hend, hidx⟩ := passes_decoded count _ hfuel
    (by simpa using hmore) (by simpa using hlast) hdec rfl
  refine ⟨r, ?_, by simpa using hend, by simpa using hidx⟩
  rw [decodeImaBlock, if_neg (not_not_intro hsize), hst, if_pos rfl]
  simp only [Nat.mul_zero, Nat.add_zero] at hr
  rw [hr, Option.map_some]

/-- A block of whole groups. -/
theorem decodeImaBlock_decoded (hch : channels = 1 ∨ channels = 2) (groups : Nat)
    (hzero : ∀ c < channels, byteAt data (4 * c + 3) = 0) (samples : Nat → Int) :
    ∃ r, decodeImaBlock channels ((channels + 8 * channels * groups : Nat) : Int) data samples =
        some (r, true) ∧
      Decoded data channels samples (fun _ => 8 * groups) r ∧
      r.idx = 4 * channels + 4 * channels * groups := by
  have hsize := imaSizeOk_eq hch groups
  rw [imaSizeOk, decide_eq_true_eq] at hsize
  refine decodeImaBlock_accepted (by omega) hsize hzero groups ?_ (Int.le_refl _) samples
  intro u hu
  rcases hch with rfl | rfl <;> omega

/-- Every sample of the block is written exactly once, with what the recursion of its channel gives,
    and nothing else; the steps and the samples stay in their ranges. -/
theorem decodeImaBlock_eq_recursion (hch : channels = 1 ∨ channels = 2) (hpos : 0 < data.length)
    (hdvd : 4 * channels ∣ data.length) (hzero : ∀ c < channels, byteAt data (4 * c + 3) = 0)
    (samples : Nat → Int) :
    ∃ r, decodeImaBlock channels (sampleCount channels data) data samples = some (r, true) ∧
      (∀ p : Nat, r.written.count p = if (p : Int) < sampleCount channels data then 1 else 0) ∧
      (∀ c < channels, ∀ k : Nat, ((c + channels * k : Nat) : Int) < sampleCount channels data →
        r.samples (c + channels * k) = (refAt data channels c k).sample ∧
        (refAt data channels c k).stepindex ≤ 88) ∧
      (∀ p : Nat, (p : Int) < sampleCount channels data →
        -32768 ≤ r.samples p ∧ r.samples p ≤ 32767) ∧
      (∀ p : Nat, sampleCount channels data ≤ p → r.samples p = samples p) ∧
      (∀ x ∈ r.looked, 0 ≤ x ∧ x ≤ 88) ∧ r.idx = data.length := by
  obtain ⟨groups, hlength, hcount⟩ := groups_of_dvd hch hpos hdvd
  obtain ⟨r, hr, hdec, hidx⟩ := decodeImaBlock_decoded hch groups hzero samples
  have hpositive : 0 < channels := by omega
  have hmem : ∀ p : Nat, p ∈ r.written ↔ (p : Int) < sampleCount channels data := by
    intro p
    rw [hcount, Nat.cast_lt, hdec.mem_written hpositive]
  have hsamples : ∀ c < channels, ∀ k : Nat,
      ((c + channels * k : Nat) : Int) < sampleCount channels data →
      r.samples (c + channels * k) = (refAt data channels c k).sample := by
    intro c hc k hk
    rw [hcount, Nat.cast_lt, lt_count_iff hc] at hk
    exact hdec.samples c hc k hk
  refine ⟨r, by rw [hcount, hr], ?_, ?_, ?_, ?_, hdec.looked, by rw [hidx, hlength]⟩
  · intro p
    rw [hdec.nodup.count]
    exact if_congr (hmem p) rfl rfl
  · intro c hc k hk
    exact ⟨hsamples c hc k hk, (refAt_bounds data channels c k).1⟩
  · intro p hp
    obtain ⟨hc, hpos⟩ := position_eq hpositive p
    rw [hpos] at hp ⊢
    rw [hsamples _ hc _ hp]
    exact (refAt_bounds data channels _ _).2
  · intro p hp
    refine hdec.kept p ?_
    rw [hmem p]
    omega

end block_

/-- A stereo block with one group. -/
def stereoBlock : Bytes :=
  [0x10, 0, 4, 0, 0xF0, 0xFF, 88, 0] ++ [0x17, 0x80, 0x3C, 0x05] ++ [0x9A, 0x42, 0x71, 0x0F]

theorem stereoBlock_decoded :
    ∃ r, decodeImaBlock 2 (sampleCount 2 stereoBlock) stereoBlock (fun _ => 0) = some (r, true) ∧
      (∀ p : Nat, r.written.count p = if (p : Int) < sampleCount 2 stereoBlock then 1 else 0) ∧
      (∀ c < 2, ∀ k : Nat, ((c + 2 * k : Nat) : Int) < sampleCount 2 stereoBlock →
        r.samples (c + 2 * k) = (refAt stereoBlock 2 c k).sample ∧
        (refAt stereoBlock 2 c k).stepindex ≤ 88) ∧
      (∀ p : Nat, (p : Int) < sampleCount 2 stereoBlock →
        -32768 ≤ r.samples p ∧ r.samples p ≤ 32767) ∧
      (∀ p : Nat, sampleCount 2 stereoBlock ≤ p → r.samples p = 0) ∧
      (∀ x ∈ r.looked, 0 ≤ x ∧ x ≤ 88) ∧ r.idx = stereoBlock.length :=
  decodeImaBlock_eq_recursion (.inr rfl) (by decide) (by decide) (by decide) (fun _ => 0)

/-! ### The same block as a list of samples -/

/-- The nibbles of a group are those of its channel. -/
theorem nibblesAt_eq (data : Bytes) (channels c t : Nat) :
    nibblesAt data (4 * channels + 4 * channels * t + 4 * c) =
      (List.range 8).map fun j => codeAt data channels c (8 * t + j) := by
  refine List.map_congr_left fun j hj => ?_
  have hj : j < 8 := List.mem_range.mp hj
  have hgroup : (8 * t + j) / 8 = t := by omega
  have hplace : (8 * t + j) % 8 / 2 = j / 2 := by omega
  have hparity : (8 * t + j) % 2 = j % 2 := by omega
  rw [codeAt, hgroup, hplace, hparity]

/-- A run of the recursion. -/
theorem decode_refAt (data : Bytes) (channels c m k : Nat) :
    (refAt data channels c m).decode ((List.range k).map fun j => codeAt data channels c (m + j)) =
      ((List.range k).map fun j => (refAt data channels c (m + j + 1)).sample,
        refAt data channels c (m + k)) := by
  induction k generalizing m with
  | zero => rfl
  | succ k ih =>
    have hnext := ih (m + 1)
    simp only [Nat.add_right_comm m 1] at hnext
    rw [List.range_succ_eq_map, List.map_cons, List.map_map, List.map_cons, List.map_map,
      ImaChannel.decode, Nat.add_zero]
    have hstep : (refAt data channels c m).next (codeAt data channels c m) =
        refAt data channels c (m + 1) := rfl
    rw [hstep]
    simp only [Function.comp_def, Nat.succ_eq_add_one, ← Nat.add_assoc] at hnext ⊢
    rw [hnext]

/-- The channels at a group, and what one pass makes of them. -/
theorem decoded_eq (data : Bytes) (channels t : Nat) :
    ((List.range channels).map fun c => refAt data channels c (8 * t)).zipIdx.map (fun (c, k) =>
        c.decode (nibblesAt data (4 * channels + 4 * channels * t + 4 * k))) =
      (List.range channels).map fun c =>
        ((List.range 8).map fun j => (refAt data channels c (8 * t + j + 1)).sample,
          refAt data channels c (8 * (t + 1))) := by
  refine List.ext_getElem (by simp) fun c hc hc' => ?_
  simp only [List.getElem_map, List.getElem_zipIdx, List.getElem_range, Nat.zero_add,
    nibblesAt_eq, decode_refAt]
  rfl

theorem interleave_eq (data : Bytes) {channels : Nat} (hch : channels = 1 ∨ channels = 2)
    (t : Nat) :
    interleave ((List.range channels).map fun c =>
        (List.range 8).map fun j => (refAt data channels c (8 * t + j + 1)).sample) =
      (List.range (8 * channels)).map fun p =>
        (refAt data channels (p % channels) (8 * t + 1 + p / channels)).sample := by
  rcases hch with rfl | rfl
  · simp [interleave, List.range_succ, Nat.mod_one]
  · simp [interleave, List.range_succ]

/-- The passes from a group on. -/
theorem imaPasses_eq (data : Bytes) {channels : Nat} (hch : channels = 1 ∨ channels = 2)
    (groups t : Nat) :
    imaPasses data groups ((List.range channels).map fun c => refAt data channels c (8 * t))
        (4 * channels + 4 * channels * t) =
      (List.range (8 * channels * groups)).map fun p =>
        (refAt data channels (p % channels) (8 * t + 1 + p / channels)).sample := by
  induction groups generalizing t with
  | zero => rfl
  | succ groups ih =>
    have hpos : 0 < channels := by omega
    have hplace : 4 * channels + 4 * channels * t + 4 * channels =
        4 * channels + 4 * channels * (t + 1) := by ring
    have hcount : 8 * channels * (groups + 1) = 8 * channels + 8 * channels * groups := by ring
    rw [imaPasses, decoded_eq]
    simp only [List.map_map, Function.comp_def, List.length_map, List.length_range]
    rw [interleave_eq data hch, hplace, ih, hcount, List.range_add, List.map_append, List.map_map]
    congr 1
    refine List.map_congr_left fun p _ => ?_
    have hshift : 8 * channels + p = p + channels * 8 := by ring
    simp only [Function.comp_apply, hshift, Nat.add_mul_mod_self_left,
      Nat.add_mul_div_left _ _ hpos]
    congr 2
    omega

/-- The first sample of every channel. -/
theorem headerSamples_eq (data : Bytes) (channels : Nat) :
    ((List.range channels).map (imaHeader data)).map ImaChannel.sample =
      (List.range channels).map fun p =>
        (refAt data channels (p % channels) (p / channels)).sample := by
  rw [List.map_map]
  refine List.map_congr_left fun p hp => ?_
  have hp : p < channels := List.mem_range.mp hp
  rw [Function.comp_apply, Nat.mod_eq_of_lt hp, Nat.div_eq_of_lt hp, refAt]

/-- All passes, with the positions counted from the start of the buffer. -/
theorem passSamples_eq (data : Bytes) {channels : Nat} (hch : channels = 1 ∨ channels = 2)
    (groups : Nat) :
    imaPasses data groups ((List.range channels).map (imaHeader data)) (4 * channels) =
      ((List.range (8 * channels * groups)).map (channels + ·)).map fun p =>
        (refAt data channels (p % channels) (p / channels)).sample := by
  have hpos : 0 < channels := by omega
  have hpasses := imaPasses_eq data hch groups 0
  have hheaders : (List.range channels).map (fun c => refAt data channels c (8 * 0)) =
      (List.range channels).map (imaHeader data) :=
    List.map_congr_left fun c _ => by rw [Nat.mul_zero, refAt]
  rw [hheaders, Nat.mul_zero, Nat.add_zero] at hpasses
  rw [hpasses, List.map_map]
  refine List.map_congr_left fun p _ => ?_
  have hnext : 8 * 0 + 1 + p / channels = p / channels + 1 := by omega
  rw [Function.comp_apply, Nat.add_mod_left, Nat.add_div_left _ hpos, hnext]

/-- The list of samples of a block holds those of the recursion. -/
theorem imaSamples_eq (data : Bytes) {channels : Nat} (hch : channels = 1 ∨ channels = 2)
    (groups : Nat) :
    imaSamples channels ((channels + 8 * channels * groups : Nat) : Int) data =
      (List.range (channels + 8 * channels * groups)).map fun p =>
        (refAt data channels (p % channels) (p / channels)).sample := by
  have hsamples : imaSamples channels ((channels + 8 * channels * groups : Nat) : Int) data =
      ((List.range channels).map (imaHeader data)).map ImaChannel.sample ++
        imaPasses data groups ((List.range channels).map (imaHeader data)) (4 * channels) := by
    rw [imaSamples, imaPassCount_eq hch]
  rw [hsamples, headerSamples_eq, passSamples_eq data hch, List.range_add, List.map_append]

/-- The loop and the list of samples are the same block. -/
theorem decodeImaBlock_samples {data : Bytes} {channels : Nat} (hch : channels = 1 ∨ channels = 2)
    (groups : Nat) (hzero : ∀ c < channels, byteAt data (4 * c + 3) = 0) (samples : Nat → Int) :
    ∃ r, decodeImaBlock channels ((channels + 8 * channels * groups : Nat) : Int) data samples =
        some (r, true) ∧
      (List.range (channels + 8 * channels * groups)).map r.samples =
        imaSamples channels ((channels + 8 * channels * groups : Nat) : Int) data := by
  obtain ⟨r, hr, hdec, _⟩ := decodeImaBlock_decoded hch groups hzero samples
  refine ⟨r, hr, ?_⟩
  rw [imaSamples_eq data hch]
  refine List.map_congr_left fun p hp => ?_
  have hpositive : 0 < channels := by omega
  obtain ⟨hc, hpos⟩ := position_eq hpositive p
  have hp : p < channels + 8 * channels * groups := List.mem_range.mp hp
  rw [hpos, lt_count_iff hc] at hp
  have hsample := hdec.samples _ hc _ hp
  rwa [← hpos] at hsample

end Streambox.Adpcm.ImaBlock
