import Streambox.Flac.AudioDecode

/-! What the samples of a frame stand for.

        mode          channel 0           channel 1

        left, right   left                right
        left, side    left                left - right
        side, right   left - right        right
        mid, side     (left + right) / 2  left - right

    The side has the bit that the mid has lost. The output has left and right again, from the highest
    16 bits of each. -/

namespace Streambox.Flac
open Streambox.Lib.BitField

/-- A block of sound. -/
inductive Pcm where
  | mono (xs : List Int)
  | stereo (frames : List (Int × Int))
  deriving DecidableEq, Repr

/-- Everything in it, left and right in turn. -/
def Pcm.interleaved : Pcm → List Int
  | .mono xs => xs
  | .stereo frames => frames.flatMap fun (l, r) => [l, r]

/-- The highest 16 of `bps` bits. -/
def scale (bps : Nat) (x : Int) : Int :=
  if bps ≤ 16 then x * 2 ^ (16 - bps) else x >>> (bps - 16)

def Pcm.words (bps : Nat) (pcm : Pcm) : List Int := pcm.interleaved.map (scale bps)

/-- How the two channels of a mode have a left and a right. -/
def correlate (chMode : Nat) : Int × Int → Int × Int
  | (l, r) =>
    if chMode = flacChmodeLeftSide then (l, l - r)
    else if chMode = flacChmodeRightSide then (l - r, r)
    else if chMode = flacChmodeMidSide then ((l + r) >>> (1 : Nat), l - r)
    else (l, r)

/-- The frame is a coding of the sound. -/
def Frame.Carries (f : Frame) : Pcm → Prop
  | .mono xs => f.header.chMode = 0 ∧ f.subframes.map Subframe.samples = [xs]
  | .stereo frames => f.header.channels = 2 ∧ f.subframes.map Subframe.samples =
      [frames.map fun p => (correlate f.header.chMode p).1,
        frames.map fun p => (correlate f.header.chMode p).2]

/-- No more than the bits of the stream. -/
def Pcm.Fits (bps : Nat) (pcm : Pcm) : Prop := ∀ x ∈ pcm.interleaved, Signed bps x

instance (bps : Nat) (pcm : Pcm) : Decidable (pcm.Fits bps) :=
  inferInstanceAs (Decidable (∀ x ∈ pcm.interleaved, Signed bps x))

/-! ### Two channels -/

theorem decorrelate_correlate {chMode : Nat} {l r : Int} (hl : Signed 32 l) (hr : Signed 32 r)
    (hmode : chMode = flacChmodeLeftSide ∨ chMode = flacChmodeRightSide ∨
      chMode = flacChmodeMidSide) :
    decorrelate chMode (correlate chMode (l, r)).1 (correlate chMode (l, r)).2 = (l, r) := by
  have hl' := int32_of_signed hl
  have hr' := int32_of_signed hr
  rcases hmode with rfl | rfl | rfl
  · simp [decorrelate, correlate, hr']
  · have hne : flacChmodeRightSide ≠ flacChmodeLeftSide := by decide
    simp [decorrelate, correlate, hl', hne]
  · have hmid : (l + r) >>> (1 : Nat) - (l - r) >>> (1 : Nat) = r := by
      rw [Int.shiftRight_eq_div_pow, Int.shiftRight_eq_div_pow, Nat.pow_one, Nat.cast_ofNat]
      omega
    have hne : flacChmodeMidSide ≠ flacChmodeLeftSide ∧ flacChmodeMidSide ≠ flacChmodeRightSide := by
      decide
    simp [decorrelate, correlate, hmid, hl', hr', hne]

/-- The highest bits are all that is wanted. -/
theorem signed_scale {bps : Nat} {x : Int} (hpos : 0 < bps) (hx : Signed bps x) :
    Signed 16 (scale bps x) := by
  rw [scale]
  split
  · have hroom : Signed (16 - (16 - bps)) x := by rwa [show 16 - (16 - bps) = bps by omega]
    exact signed_shift (by omega) hroom
  · obtain ⟨hmin, hmax⟩ := hx
    have hpow : (2 : Int) ^ 15 * 2 ^ (bps - 16) = 2 ^ (bps - 1) := by
      rw [← Int.pow_add]
      congr 1
      omega
    have hlow : (0 : Int) < 2 ^ (bps - 16) := Int.pow_pos (by omega)
    rw [Int.shiftRight_eq_div_pow]
    push_cast
    refine ⟨?_, ?_⟩
    · rw [Int.le_ediv_iff_mul_le hlow, Int.neg_mul, hpow]
      exact hmin
    · rw [Int.ediv_lt_iff_lt_mul hlow, hpow]
      exact hmax

theorem toWord_eq {s : FLACContext} {bps : Nat} {x : Int} (hshift : s.sampleShift = 16 - bps)
    (hpos : 0 < bps) (hx : Signed bps x) : toWord s x = scale bps x := by
  have hword : int16 (scale bps x) = scale bps x := by
    obtain ⟨hmin, hmax⟩ := signed_scale hpos hx
    have hmin' : -2 ^ 15 ≤ scale bps x := hmin
    have hmax' : scale bps x < 2 ^ 15 := hmax
    exact Int.bmod_eq_of_le (by omega) (by omega)
  rw [← hword, toWord, hshift, scale]
  congr 1
  by_cases hbps : bps ≤ 16
  · rw [if_pos (by omega), if_pos hbps]
    congr 2
    omega
  · rw [if_neg (by omega), if_neg hbps]
    congr 1
    omega

/-! ### The output of a frame -/

section
variable {s : FLACContext} {bps : Nat}

/-- The array has these at `j`. -/
def At (d : List Int) (j : Nat) (xs : List Int) : Prop := ∀ i < xs.length, d[j + i]? = xs[i]?

theorem At.head {d xs : List Int} {j : Nat} {x : Int} (h : At d j (x :: xs)) : d[j]? = some x :=
  h 0 (by simp)

theorem At.tail {d xs : List Int} {j : Nat} {x : Int} (h : At d j (x :: xs)) :
    At d (j + 1) xs := by
  intro i hi
  have hi' := h (i + 1) (by simpa using hi)
  rwa [show j + (i + 1) = j + 1 + i by omega] at hi'

theorem at_append (xs rest : List Int) : At (xs ++ rest) 0 xs := by
  intro i hi
  rw [Nat.zero_add, List.getElem?_append_left hi]

theorem outputIndependent_mono {xs : List Int} {j : Nat} (hchannels : s.channels = 1)
    (hshift : s.sampleShift = 16 - bps) (hpos : 0 < bps) (hxs : ∀ x ∈ xs, Signed bps x)
    (hat : At (s.decoded 0) j xs) :
    outputIndependent s xs.length j = some (xs.map (scale bps)) := by
  induction xs generalizing j with
  | nil => rfl
  | cons x xs ih =>
    have hrest := ih (fun y hy => hxs y (List.mem_cons_of_mem _ hy)) hat.tail
    have hword := toWord_eq hshift hpos (hxs x List.mem_cons_self)
    rw [List.length_cons, outputIndependent, hchannels, hrest]
    simp [List.range_succ, hat.head, hword]

/-- Two channels that are left and right. -/
theorem outputIndependent_stereo {frames : List (Int × Int)} {j : Nat} (hchannels : s.channels = 2)
    (hshift : s.sampleShift = 16 - bps) (hpos : 0 < bps)
    (hframes : ∀ p ∈ frames, Signed bps p.1 ∧ Signed bps p.2)
    (hleft : At (s.decoded 0) j (frames.map Prod.fst))
    (hright : At (s.decoded 1) j (frames.map Prod.snd)) :
    outputIndependent s frames.length j =
      some (frames.flatMap fun (l, r) => [scale bps l, scale bps r]) := by
  induction frames generalizing j with
  | nil => rfl
  | cons p frames ih =>
    rw [List.map_cons] at hleft hright
    have hrest := ih (fun q hq => hframes q (List.mem_cons_of_mem _ hq)) hleft.tail hright.tail
    obtain ⟨hl, hr⟩ := hframes p List.mem_cons_self
    rw [List.length_cons, outputIndependent, hchannels, hrest]
    simp [List.range_succ, hleft.head, hright.head, toWord_eq hshift hpos hl,
      toWord_eq hshift hpos hr]

/-- Two channels of which one is the side. -/
theorem outputPairs_eq {frames : List (Int × Int)} {j : Nat}
    (hmode : s.chMode = flacChmodeLeftSide ∨ s.chMode = flacChmodeRightSide ∨
      s.chMode = flacChmodeMidSide)
    (hshift : s.sampleShift = 16 - bps) (hpos : 0 < bps) (hmax : bps ≤ 32)
    (hframes : ∀ p ∈ frames, Signed bps p.1 ∧ Signed bps p.2)
    (hfirst : At (s.decoded 0) j (frames.map fun p => (correlate s.chMode p).1))
    (hsecond : At (s.decoded 1) j (frames.map fun p => (correlate s.chMode p).2)) :
    outputPairs s frames.length j =
      some (frames.flatMap fun (l, r) => [scale bps l, scale bps r]) := by
  induction frames generalizing j with
  | nil => rfl
  | cons p frames ih =>
    rw [List.map_cons] at hfirst hsecond
    have hrest := ih (fun q hq => hframes q (List.mem_cons_of_mem _ hq)) hfirst.tail hsecond.tail
    obtain ⟨hl, hr⟩ := hframes p List.mem_cons_self
    have hpair := decorrelate_correlate (signed_mono hmax hl) (signed_mono hmax hr) hmode
    rw [List.length_cons, outputPairs, hfirst.head, hsecond.head, hrest]
    simp [hpair, toWord_eq hshift hpos hl, toWord_eq hshift hpos hr]

theorem Pcm.words_stereo (frames : List (Int × Int)) :
    (Pcm.stereo frames).words bps = frames.flatMap fun (l, r) => [scale bps l, scale bps r] := by
  rw [words, interleaved, List.map_flatMap]
  rfl

theorem Pcm.fits_stereo {frames : List (Int × Int)} (h : (Pcm.stereo frames).Fits bps) :
    ∀ p ∈ frames, Signed bps p.1 ∧ Signed bps p.2 := by
  rintro ⟨l, r⟩ hp
  exact ⟨h l (List.mem_flatMap.mpr ⟨(l, r), hp, by simp⟩),
    h r (List.mem_flatMap.mpr ⟨(l, r), hp, by simp⟩)⟩

/-- The array of a channel has its samples. -/
theorem at_after {fuel : Nat} {f : Frame} (hwf : f.WellFormed fuel s) {k : Nat} {xs : List Int}
    (hsamples : (f.subframes.map Subframe.samples)[k]? = some xs) :
    At ((s.after f).decoded k) 0 xs ∧ xs.length = f.header.blocksize := by
  rw [List.getElem?_map, Option.map_eq_some_iff] at hsamples
  obtain ⟨sub, hsub, rfl⟩ := hsamples
  rw [after_decoded hsub]
  exact ⟨at_append _ _, hwf.samples sub (List.mem_of_getElem? hsub)⟩

/-- What comes out behind a frame is the sound that it carries. -/
theorem output_after {fuel : Nat} {f : Frame} {pcm : Pcm} (hwf : f.WellFormed fuel s)
    (hbps : 0 < s.bps ∧ s.bps ≤ 32) (hcarries : f.Carries pcm) (hfits : pcm.Fits s.bps) :
    output (s.after f) = some (pcm.words s.bps) := by
  obtain ⟨currBps, decoded, hfields⟩ := after_fields s f
  have hshift : (s.after f).sampleShift = 16 - (s.bps : Int) := by rw [hfields]; rfl
  have hblock : (s.after f).blocksize.toNat = f.header.blocksize := by rw [hfields]; rfl
  have hmode : (s.after f).chMode = f.chMode := by rw [hfields]; rfl
  have hcode : f.chMode = if f.header.chMode < 8 then flacChmodeIndependent else f.header.chMode :=
    rfl
  have hchannels : (s.after f).channels = f.header.channels := by
    rw [hfields, hwf.channels]
    rfl
  have hcount : f.header.channels = if f.header.chMode < 8 then f.header.chMode + 1 else 2 := rfl
  have hknown := hwf.header.chMode
  rw [output, hmode, hchannels, hblock]
  cases pcm with
  | mono xs =>
    obtain ⟨hzero, hsamples⟩ := hcarries
    obtain ⟨hat, hlen⟩ := at_after hwf (k := 0) (by rw [hsamples]; rfl)
    have hone : f.header.channels = 1 := by rw [hcount, hzero]; rfl
    have hnone : f.chMode = flacChmodeIndependent := by rw [hcode, hzero]; rfl
    rw [if_pos hnone, if_pos (by omega), ← hlen]
    exact outputIndependent_mono (by omega) hshift hbps.1 hfits hat
  | stereo frames =>
    obtain ⟨htwo, hsamples⟩ := hcarries
    obtain ⟨hfirst, hlen⟩ := at_after hwf (k := 0) (by rw [hsamples]; rfl)
    obtain ⟨hsecond, -⟩ := at_after hwf (k := 1) (by rw [hsamples]; rfl)
    have hframes := Pcm.fits_stereo hfits
    rw [List.length_map] at hlen
    rw [Pcm.words_stereo, ← hlen]
    by_cases hindependent : f.header.chMode < 8
    · have hone : f.header.chMode = 1 := by
        rw [htwo, if_pos hindependent] at hcount
        omega
      rw [if_pos hindependent] at hcode
      rw [if_pos hcode, if_pos (by omega)]
      rw [hone] at hfirst hsecond
      exact outputIndependent_stereo (by omega) hshift hbps.1 hframes hfirst hsecond
    · rw [if_neg hindependent] at hcode
      rw [if_neg (by unfold flacChmodeIndependent; omega)]
      have hside : f.header.chMode = flacChmodeLeftSide ∨ f.header.chMode = flacChmodeRightSide ∨
          f.header.chMode = flacChmodeMidSide := by
        unfold flacChmodeLeftSide flacChmodeRightSide flacChmodeMidSide
        omega
      rw [← hcode, ← hmode] at hfirst hsecond hside
      exact outputPairs_eq hside hshift hbps.1 hbps.2 hframes hfirst hsecond

end

end Streambox.Flac
