import Streambox.Lib.Align
import Mathlib.Tactic.Ring

/-! streamboxsrc, gst_streambox_src.c: where the planes of a returned buffer are.

    The converter writes a Y plane and a UV plane into one or two DMA-bufs. Where it writes the UV
    plane is decided in vfmcap_vulkan.c when the output pool is made (Path A) and in
    `vdin1_vk_submit_async` (Path B). What the buffer says about it, in its video meta and in the
    sizes of its memory blocks, is decided in `create_path_a` and `create_path_b`.

    An offset of the video meta counts over the memory blocks of the buffer as if they were one. -/

namespace Streambox.Element.PlaneLayout
open Streambox.Lib

/-! ### What is written -/

/-- The output formats. -/
inductive Format
  | nv12
  | p010
  deriving DecidableEq, Repr

/-- The formats of the plane images. -/
inductive VkFormat
  | r8Unorm
  | r8g8Unorm
  | r16Unorm
  | r16g16Unorm
  deriving DecidableEq, Repr

def formatBytesPerPixel : VkFormat → UInt64
  | .r8Unorm => 1
  | .r8g8Unorm => 2
  | .r16Unorm => 2
  | .r16g16Unorm => 4

def yFormat : Format → VkFormat
  | .nv12 => .r8Unorm
  | .p010 => .r16Unorm

def uvFormat : Format → VkFormat
  | .nv12 => .r8g8Unorm
  | .p010 => .r16g16Unorm

/-- VkMemoryRequirements, without the memory types. -/
structure MemoryRequirements where
  size : UInt64
  alignment : UInt64
  deriving DecidableEq, Repr

/-- Where a plane is: in which DMA-buf of the buffer, at which byte, and how many bytes it has. -/
structure Plane where
  dmabuf : Nat
  offset : Nat
  bytes : Nat
  deriving DecidableEq, Repr

/-- The DMA-bufs behind a buffer with their sizes, and the planes in them. -/
structure Written where
  dmabufs : List Nat
  y : Plane
  uv : Plane
  deriving DecidableEq, Repr

/-- The bytes of an image of a plane. -/
def imageBytes (width height : UInt32) (format : VkFormat) : Nat :=
  width.toNat * height.toNat * (formatBytesPerPixel format).toNat

def yBytes (width height : UInt32) (fmt : Format) : Nat := imageBytes width height (yFormat fmt)

/-- The UV image has half the width and half the height. -/
def uvBytes (width height : UInt32) (fmt : Format) : Nat :=
  imageBytes (width / 2) (height / 2) (uvFormat fmt)

/-- How the output pool was made. -/
inductive Layout
  | contiguous
  | separate
  | copyout
  deriving DecidableEq, Repr

section Writers
-- the size of the DMA-buf that the heap gives for a length
variable (heap : Nat → Nat) (width height : UInt32) (fmt : Format)
  (yReqs uvReqs : MemoryRequirements)

/-- output_pool_create_yuv420_contiguous: both planes in one DMA-buf. -/
def outputPoolCreateYuv420Contiguous : Written :=
  let uvOffset := alignUp yReqs.size uvReqs.alignment
  let totalSize := uvOffset + uvReqs.size
  ⟨[heap totalSize.toNat], ⟨0, 0, yBytes width height fmt⟩,
    ⟨0, uvOffset.toNat, uvBytes width height fmt⟩⟩

/-- output_pool_create for each plane: a DMA-buf as large as the image requires. -/
def outputPoolCreate : Written :=
  ⟨[heap yReqs.size.toNat, heap uvReqs.size.toNat], ⟨0, 0, yBytes width height fmt⟩,
    ⟨1, 0, uvBytes width height fmt⟩⟩

/-- The length of the buffer that an image is copied to. -/
def bufSize (width height : UInt32) (format : VkFormat) : UInt64 :=
  width.toUInt64 * height.toUInt64 * formatBytesPerPixel format

/-- output_pool_create_copyout for each plane: a DMA-buf for the copy. -/
def outputPoolCreateCopyout : Written :=
  ⟨[heap (bufSize width height (yFormat fmt)).toNat,
      heap (bufSize (width / 2) (height / 2) (uvFormat fmt)).toNat],
    ⟨0, 0, yBytes width height fmt⟩, ⟨1, 0, uvBytes width height fmt⟩⟩

def writtenPathA : Layout → Written
  | .contiguous => outputPoolCreateYuv420Contiguous heap width height fmt yReqs uvReqs
  | .separate => outputPoolCreate heap width height fmt yReqs uvReqs
  | .copyout => outputPoolCreateCopyout heap width height fmt

/-- The size of the buffers of the P010 pool, in 32 bits. -/
def p010Size : UInt32 := width * height * 3

/-- vdin1_vk_submit_async: the shader writes both planes of a buffer of the P010 pool. -/
def writtenPathB : Written :=
  let yPlaneSize := width.toUInt64 * height.toUInt64 * 2
  ⟨[heap (p010Size width height).toNat], ⟨0, 0, yBytes width height .p010⟩,
    ⟨0, yPlaneSize.toNat, uvBytes width height .p010⟩⟩

end Writers

/-! ### What is declared -/

/-- GstVideoMeta: offsets and strides of the two planes. -/
structure VideoMeta where
  offset0 : UInt64
  offset1 : UInt64
  stride0 : UInt32
  stride1 : UInt32
  deriving DecidableEq, Repr

/-- A GstBuffer: the sizes of its memory blocks, and its video meta. -/
structure Buffer where
  memories : List UInt64
  videoMeta : VideoMeta
  deriving DecidableEq, Repr

/-- The part of vfmcap_frame_t that the layout depends on; `second` says that there is a second
    DMA-buf. -/
structure Frame where
  width : UInt32
  height : UInt32
  size : UInt32
  pixelformat : Format
  second : Bool
  deriving DecidableEq, Repr

/-- vfmcap_output_size, in 32 bits. -/
def vfmcapOutputSize (width height : UInt32) : Format → UInt32
  | .p010 => width * height * 3
  | .nv12 => width * height * 3 / 2

/-- The frame as vfmcap_acquire_frame fills it in after the conversion. -/
def acquired (width height : UInt32) (fmt : Format) (layout : Layout) : Frame :=
  ⟨width, height, vfmcapOutputSize width height fmt, fmt, decide (layout ≠ .contiguous)⟩

/-- The size of the second memory block. -/
def plane2Size (f : Frame) : UInt64 :=
  match f.pixelformat with
  | .nv12 => f.width.toUInt64 * f.height.toUInt64 / 2
  | .p010 => f.width.toUInt64 * f.height.toUInt64

/-- The video meta that create_path_a adds. -/
def videoMetaPathA (f : Frame) : VideoMeta :=
  match f.pixelformat with
  | .p010 => ⟨0, if f.second then 0 else f.width.toUInt64 * f.height.toUInt64 * 2, f.width * 2,
      f.width * 2⟩
  | .nv12 => ⟨0, f.width.toUInt64 * f.height.toUInt64, f.width, f.width⟩

/-- create_path_a: the buffer around a frame. -/
def createPathA (f : Frame) : Buffer :=
  ⟨f.size.toUInt64 :: if f.second then [plane2Size f] else [], videoMetaPathA f⟩

/-- create_path_b: the buffer around a DMA-buf of the P010 pool. -/
def createPathB (width height : UInt32) : Buffer :=
  ⟨[(p010Size width height).toUInt64], ⟨0, 0, width * 2, width * 2⟩⟩

/-! ### The declared layout and the written one -/

/-- A plane's first byte, counted over the memory blocks of the buffer. -/
def position (b : Buffer) (p : Plane) : Nat :=
  ((b.memories.take p.dmabuf).map UInt64.toNat).sum + p.offset

/-- The plane lies in its memory block. -/
def Covers (b : Buffer) (p : Plane) : Prop :=
  ∃ m ∈ b.memories[p.dmabuf]?, p.offset + p.bytes ≤ m.toNat

/-- What a buffer declares is what was written. -/
structure Declares (b : Buffer) (w : Written) : Prop where
  uv_offset : b.videoMeta.offset1.toNat = position b w.uv
  sizes : List.Forall₂ (fun m d => m.toNat ≤ d) b.memories w.dmabufs
  y_covered : Covers b w.y
  uv_covered : Covers b w.uv

/-- A buffer that the source returns. -/
inductive Output
  | pathA (fmt : Format) (layout : Layout) (width height : UInt32)
      (yReqs uvReqs : MemoryRequirements)
  | pathB (width height : UInt32)
  deriving DecidableEq, Repr

def buffer : Output → Buffer
  | .pathA fmt layout width height _ _ => createPathA (acquired width height fmt layout)
  | .pathB width height => createPathB width height

def written (heap : Nat → Nat) : Output → Written
  | .pathA fmt layout width height yReqs uvReqs =>
    writtenPathA heap width height fmt yReqs uvReqs layout
  | .pathB width height => writtenPathB heap width height

/-- What Vulkan promises of the memory requirements of the two plane images: the memory holds the
    image, alignments are powers of two, and the images can be bound to memory that is there. -/
structure Reported (width height : UInt32) (fmt : Format) (yReqs uvReqs : MemoryRequirements) :
    Prop where
  y_fits : yBytes width height fmt ≤ yReqs.size.toNat
  uv_fits : uvBytes width height fmt ≤ uvReqs.size.toNat
  two_pow : ∃ k, uvReqs.alignment.toNat = 2 ^ k
  bound : yReqs.size.toNat + uvReqs.alignment.toNat + uvReqs.size.toNat < 2 ^ 64

/-- Width and height are even, and the driver keeps its promises. -/
def Possible : Output → Prop
  | .pathA fmt _ width height yReqs uvReqs =>
    width.toNat % 2 = 0 ∧ height.toNat % 2 = 0 ∧ Reported width height fmt yReqs uvReqs
  | .pathB width height => width.toNat % 2 = 0 ∧ height.toNat % 2 = 0

/-- With one DMA-buf of Path A, the driver asks for just the bytes of the Y plane, the UV plane may
    be right behind them, and the size is one of 32 bits. Otherwise there are no pixels. -/
def Agrees : Output → Prop
  | .pathA fmt .contiguous width height yReqs uvReqs =>
    yReqs.size.toNat = yBytes width height fmt ∧
      uvReqs.alignment.toNat ∣ yBytes width height fmt ∧
      width.toNat * height.toNat * 3 < 2 ^ 32
  | .pathA _ .separate width height _ _ => width.toNat * height.toNat = 0
  | .pathA _ .copyout width height _ _ => width.toNat * height.toNat = 0
  | .pathB width height => width.toNat * height.toNat = 0

/-! ### Sizes -/

section Sizes
variable {width height : UInt32} {fmt : Format}

theorem toNat_mul_three : (width * height * 3).toNat = width.toNat * height.toNat * 3 % 2 ^ 32 := by
  rw [UInt32.toNat_mul, UInt32.toNat_mul, Nat.mod_mul_mod]
  rfl

theorem toNat_pixels : (width.toUInt64 * height.toUInt64).toNat = width.toNat * height.toNat := by
  rw [UInt64.toNat_mul, UInt32.toNat_toUInt64, UInt32.toNat_toUInt64, Nat.mod_eq_of_lt]
  have hlt : width.toNat * height.toNat < 2 ^ 32 * 2 ^ 32 :=
    Nat.mul_lt_mul'' width.toNat_lt height.toNat_lt
  exact hlt

theorem toNat_outputSize : (vfmcapOutputSize width height fmt).toUInt64.toNat =
    match fmt with
    | .p010 => width.toNat * height.toNat * 3 % 2 ^ 32
    | .nv12 => width.toNat * height.toNat * 3 % 2 ^ 32 / 2 := by
  rw [UInt32.toNat_toUInt64]
  cases fmt with
  | p010 => exact toNat_mul_three
  | nv12 => rw [vfmcapOutputSize, UInt32.toNat_div, toNat_mul_three]; rfl

/-- Two UV planes have as many bytes as a Y plane. -/
theorem two_mul_uvBytes (fmt : Format) (hw : width.toNat % 2 = 0) (hh : height.toNat % 2 = 0) :
    2 * uvBytes width height fmt = yBytes width height fmt := by
  obtain ⟨a, ha⟩ := Nat.dvd_of_mod_eq_zero hw
  obtain ⟨b, hb⟩ := Nat.dvd_of_mod_eq_zero hh
  have hw2 : (width / 2).toNat = a := by
    rw [UInt32.toNat_div, ha]
    exact Nat.mul_div_cancel_left a Nat.two_pos
  have hh2 : (height / 2).toNat = b := by
    rw [UInt32.toNat_div, hb]
    exact Nat.mul_div_cancel_left b Nat.two_pos
  have hbpp : (formatBytesPerPixel (uvFormat fmt)).toNat =
      2 * (formatBytesPerPixel (yFormat fmt)).toNat := by
    cases fmt <;> rfl
  rw [uvBytes, yBytes, imageBytes, imageBytes, hw2, hh2, ha, hb, hbpp]
  ring

theorem yBytes_eq : yBytes width height fmt =
    match fmt with
    | .p010 => width.toNat * height.toNat * 2
    | .nv12 => width.toNat * height.toNat := by
  cases fmt with
  | p010 => rfl
  | nv12 => exact Nat.mul_one _

/-- If the Y plane has less than `2 ^ 64` bytes, Path A places the UV plane of a single DMA-buf
    right behind it. -/
theorem toNat_offset1 (hy : yBytes width height fmt < 2 ^ 64) :
    (videoMetaPathA (acquired width height fmt .contiguous)).offset1.toNat =
      yBytes width height fmt := by
  rw [yBytes_eq] at hy ⊢
  cases fmt with
  | nv12 => exact toNat_pixels
  | p010 =>
    have hoff : (videoMetaPathA (acquired width height .p010 .contiguous)).offset1 =
        width.toUInt64 * height.toUInt64 * 2 := rfl
    rw [hoff, UInt64.toNat_mul, toNat_pixels]
    exact Nat.mod_eq_of_lt hy

end Sizes

/-! ### One DMA-buf -/

section Contiguous
variable {heap : Nat → Nat} {width height : UInt32} {fmt : Format}
  {yReqs uvReqs : MemoryRequirements}

/-- The size of the buffer covers both planes if and only if it does not overflow. -/
theorem covers_iff (fmt : Format) (hw : width.toNat % 2 = 0) (hh : height.toNat % 2 = 0) :
    yBytes width height fmt + uvBytes width height fmt ≤
      (vfmcapOutputSize width height fmt).toUInt64.toNat ↔
        width.toNat * height.toNat * 3 < 2 ^ 32 := by
  have huv := two_mul_uvBytes fmt hw hh
  rw [toNat_outputSize]
  rw [yBytes_eq] at huv ⊢
  cases fmt <;> simp only at huv ⊢ <;> omega

/-- The size never counts more than the bytes of the two planes. -/
theorem outputSize_le (hw : width.toNat % 2 = 0) (hh : height.toNat % 2 = 0) :
    (vfmcapOutputSize width height fmt).toUInt64.toNat ≤
      yBytes width height fmt + uvBytes width height fmt := by
  have huv := two_mul_uvBytes fmt hw hh
  rw [toNat_outputSize]
  rw [yBytes_eq] at huv ⊢
  have hmod := Nat.mod_le (width.toNat * height.toNat * 3) (2 ^ 32)
  cases fmt <;> simp only at huv ⊢ <;> omega

theorem declares_contiguous_iff (hheap : ∀ n, n ≤ heap n) (hw : width.toNat % 2 = 0)
    (hh : height.toNat % 2 = 0) (hreq : Reported width height fmt yReqs uvReqs) :
    Declares (createPathA (acquired width height fmt .contiguous))
      (outputPoolCreateYuv420Contiguous heap width height fmt yReqs uvReqs) ↔
    yReqs.size.toNat = yBytes width height fmt ∧
      uvReqs.alignment.toNat ∣ yBytes width height fmt ∧
      width.toNat * height.toNat * 3 < 2 ^ 32 := by
  obtain ⟨k, hk⟩ := hreq.two_pow
  have hbound := hreq.bound
  have halign := alignUp_eq_iff hk (by omega) hreq.y_fits
  have hoff := toNat_offset1 (Nat.lt_of_le_of_lt hreq.y_fits yReqs.size.toNat_lt)
  have hsize := covers_iff fmt hw hh
  constructor
  · intro h
    have huv : (alignUp yReqs.size uvReqs.alignment).toNat = yBytes width height fmt := by
      have hpos := h.uv_offset
      rw [createPathA, hoff] at hpos
      exact (Nat.zero_add _).symm.trans hpos.symm
    obtain ⟨hy, hdvd⟩ := halign.mp huv
    obtain ⟨m, hm, hcover⟩ := h.uv_covered
    cases hm
    refine ⟨hy, hdvd, hsize.mp ?_⟩
    rw [← huv]
    exact hcover
  · rintro ⟨hy, hdvd, hlt⟩
    have huv := halign.mpr ⟨hy, hdvd⟩
    have hcover := hsize.mpr hlt
    have htotal : (alignUp yReqs.size uvReqs.alignment + uvReqs.size).toNat =
        yBytes width height fmt + uvReqs.size.toNat := by
      rw [UInt64.toNat_add, huv, Nat.mod_eq_of_lt (by omega)]
    refine ⟨?_, .cons ?_ .nil, ⟨_, rfl, ?_⟩, ⟨_, rfl, ?_⟩⟩
    · exact hoff.trans (huv.symm.trans (Nat.zero_add _).symm)
    · refine Nat.le_trans ?_ (hheap _)
      rw [htotal]
      exact Nat.le_trans (outputSize_le hw hh) (Nat.add_le_add_left hreq.uv_fits _)
    · exact Nat.le_trans (Nat.zero_add _ ▸ Nat.le_add_right _ _) hcover
    · exact Nat.le_trans (Nat.add_le_add_right (Nat.le_of_eq huv) _) hcover

end Contiguous

/-! ### Two DMA-bufs, and Path B -/

section Other
variable {heap : Nat → Nat} {width height : UInt32} {fmt : Format} {layout : Layout}
  {yReqs uvReqs : MemoryRequirements} {w : Written}

/-- With two DMA-bufs the UV plane is at the first byte of the second, and the size of both planes
    is declared for the first. -/
theorem not_declares_two (hw : width.toNat % 2 = 0) (hh : height.toNat % 2 = 0)
    (hlayout : layout ≠ .contiguous) (hy : w.y = ⟨0, 0, yBytes width height fmt⟩)
    (huv : w.uv = ⟨1, 0, uvBytes width height fmt⟩)
    (h : Declares (createPathA (acquired width height fmt layout)) w) :
    width.toNat * height.toNat = 0 := by
  have huv2 := two_mul_uvBytes fmt hw hh
  obtain ⟨m, hm, hcover⟩ := h.y_covered
  have hpos := h.uv_offset
  rw [hy] at hm hcover
  cases hm
  rw [huv] at hpos
  have hsecond : decide (layout ≠ .contiguous) = true := decide_eq_true hlayout
  simp only [createPathA, acquired, hsecond, videoMetaPathA, position, if_true, List.take_succ_cons,
    List.take_zero, List.map_cons, List.map_nil, List.sum_cons, List.sum_nil] at hpos hcover
  rw [toNat_outputSize] at hpos hcover
  rw [yBytes_eq] at hcover huv2
  cases fmt with
  | nv12 =>
    simp only [toNat_pixels] at hpos hcover huv2
    omega
  | p010 =>
    simp only [UInt64.toNat_zero, Nat.add_zero] at hpos
    simp only [← hpos, Nat.zero_add] at hcover
    exact (Nat.mul_eq_zero.mp (Nat.le_zero.mp hcover)).resolve_right two_ne_zero

theorem bytes_of_empty (hw : width.toNat % 2 = 0) (hh : height.toNat % 2 = 0)
    (hempty : width.toNat * height.toNat = 0) (fmt : Format) :
    yBytes width height fmt = 0 ∧ uvBytes width height fmt = 0 := by
  have huv := two_mul_uvBytes fmt hw hh
  have hy : yBytes width height fmt = 0 := by
    rw [yBytes_eq, hempty]
    cases fmt <;> rfl
  exact ⟨hy, by omega⟩

/-- Without pixels everything is at the first byte and has no bytes. -/
theorem declares_two_of_empty (hw : width.toNat % 2 = 0) (hh : height.toNat % 2 = 0)
    (hempty : width.toNat * height.toNat = 0) (hlayout : layout ≠ .contiguous) (d d' : Nat) :
    Declares (createPathA (acquired width height fmt layout))
      ⟨[d, d'], ⟨0, 0, yBytes width height fmt⟩, ⟨1, 0, uvBytes width height fmt⟩⟩ := by
  obtain ⟨hy, huv⟩ := bytes_of_empty hw hh hempty fmt
  have hsize : (vfmcapOutputSize width height fmt).toUInt64.toNat = 0 := by
    rw [toNat_outputSize, hempty]
    cases fmt <;> rfl
  have hpixels : (width.toUInt64 * height.toUInt64).toNat = 0 := toNat_pixels.trans hempty
  have hplane2 : (plane2Size (acquired width height fmt layout)).toNat = 0 := by
    cases fmt with
    | nv12 => rw [plane2Size, acquired, UInt64.toNat_div, hpixels]; rfl
    | p010 => exact hpixels
  have hsecond : decide (layout ≠ .contiguous) = true := decide_eq_true hlayout
  have hoff : (videoMetaPathA (acquired width height fmt layout)).offset1.toNat = 0 := by
    cases fmt with
    | nv12 => exact hpixels
    | p010 => simp [videoMetaPathA, acquired, hsecond]
  have hmems : (createPathA (acquired width height fmt layout)).memories =
      [(vfmcapOutputSize width height fmt).toUInt64,
        plane2Size (acquired width height fmt layout)] := by
    simp [createPathA, acquired, hsecond]
  refine ⟨?_, ?_, ⟨(vfmcapOutputSize width height fmt).toUInt64, ?_, ?_⟩,
    ⟨plane2Size (acquired width height fmt layout), ?_, ?_⟩⟩
  · simp only [position, hmems, List.take_succ_cons, List.take_zero, List.map_cons, List.map_nil,
      List.sum_cons, List.sum_nil, hsize]
    exact hoff
  · rw [hmems]
    exact .cons (hsize ▸ Nat.zero_le _) (.cons (hplane2 ▸ Nat.zero_le _) .nil)
  · simp [hmems]
  · simp [hy]
  · simp [hmems]
  · simp [huv]

/-- With two DMA-bufs the layout is declared only for a frame without pixels. -/
theorem declares_two_iff (hw : width.toNat % 2 = 0) (hh : height.toNat % 2 = 0)
    (hlayout : layout ≠ .contiguous) (d d' : Nat) :
    Declares (createPathA (acquired width height fmt layout))
      ⟨[d, d'], ⟨0, 0, yBytes width height fmt⟩, ⟨1, 0, uvBytes width height fmt⟩⟩ ↔
      width.toNat * height.toNat = 0 :=
  ⟨not_declares_two hw hh hlayout rfl rfl,
    fun hempty => declares_two_of_empty hw hh hempty hlayout d d'⟩

/-- Path B declares the UV plane at the first byte. -/
theorem declares_pathB_iff (hheap : ∀ n, n ≤ heap n) (hw : width.toNat % 2 = 0)
    (hh : height.toNat % 2 = 0) :
    Declares (createPathB width height) (writtenPathB heap width height) ↔
      width.toNat * height.toNat = 0 := by
  have hsize : (p010Size width height).toUInt64.toNat =
      width.toNat * height.toNat * 3 % 2 ^ 32 := by
    rw [UInt32.toNat_toUInt64]
    exact toNat_mul_three
  have hplane : (width.toUInt64 * height.toUInt64 * 2).toNat =
      width.toNat * height.toNat * 2 % 2 ^ 64 := by
    rw [UInt64.toNat_mul, toNat_pixels]
    rfl
  constructor
  · intro h
    have hpos : 0 = 0 + (width.toUInt64 * height.toUInt64 * 2).toNat := h.uv_offset
    obtain ⟨m, hm, hcover⟩ := h.y_covered
    cases hm
    have hle : 0 + width.toNat * height.toNat * 2 ≤ (p010Size width height).toUInt64.toNat := hcover
    rw [hsize] at hle
    rw [hplane] at hpos
    omega
  · intro hempty
    obtain ⟨hy, huv⟩ := bytes_of_empty hw hh hempty .p010
    rw [hempty] at hsize hplane
    refine ⟨?_, .cons ?_ .nil, ⟨_, rfl, ?_⟩, ⟨_, rfl, ?_⟩⟩
    · exact (hplane.trans rfl).symm.trans (Nat.zero_add _).symm
    · exact UInt32.toNat_toUInt64 _ ▸ hheap _
    · exact (Nat.zero_add _).trans hy ▸ Nat.zero_le _
    · have hend :
          (width.toUInt64 * height.toUInt64 * 2).toNat + uvBytes width height .p010 = 0 := by
        rw [hplane, huv]
        rfl
      exact hend ▸ Nat.zero_le _

end Other

/-! ### All buffers -/

/-- The layout that a buffer declares is the written one if and only if both planes are in one
    DMA-buf of Path A and the driver puts nothing between them, or there are no pixels. -/
theorem declares_iff {heap : Nat → Nat} (hheap : ∀ n, n ≤ heap n) {o : Output} (ho : Possible o) :
    Declares (buffer o) (written heap o) ↔ Agrees o := by
  cases o with
  | pathA fmt layout width height yReqs uvReqs =>
    obtain ⟨hw, hh, hreq⟩ := ho
    cases layout with
    | contiguous => exact declares_contiguous_iff hheap hw hh hreq
    | separate => exact declares_two_iff hw hh (by decide) _ _
    | copyout => exact declares_two_iff hw hh (by decide) _ _
  | pathB width height =>
    obtain ⟨hw, hh⟩ := ho
    exact declares_pathB_iff hheap hw hh

/-- A heap that gives whole pages. -/
def pages (n : Nat) : Nat := (n + 4095) / 4096 * 4096

/-- A driver that asks for just the planes of an NV12 image of 1920x1080, aligned to 64 bytes. -/
def tight : Output := .pathA .nv12 .contiguous 1920 1080 ⟨2073600, 64⟩ ⟨1036800, 64⟩

theorem tight_declared : Declares (buffer tight) (written pages tight) := by
  refine (declares_iff ?_ ?_).mpr ?_
  · intro n
    simp only [pages]
    omega
  · exact ⟨rfl, rfl, by decide, by decide, ⟨6, rfl⟩, by decide⟩
  · exact ⟨rfl, by decide, by decide⟩

/-- The same image with a driver that aligns to pages, in one DMA-buf or in two, and a P010 image
    of Path B. -/
theorem layouts_not_declared :
    ¬ Declares (buffer (.pathA .nv12 .contiguous 1920 1080 ⟨2076672, 4096⟩ ⟨1036800, 4096⟩))
        (written pages (.pathA .nv12 .contiguous 1920 1080 ⟨2076672, 4096⟩ ⟨1036800, 4096⟩)) ∧
      ¬ Declares (buffer (.pathA .nv12 .separate 1920 1080 ⟨2076672, 4096⟩ ⟨1036800, 4096⟩))
        (written pages (.pathA .nv12 .separate 1920 1080 ⟨2076672, 4096⟩ ⟨1036800, 4096⟩)) ∧
      ¬ Declares (buffer (.pathB 1920 1080)) (written pages (.pathB 1920 1080)) := by
  refine ⟨fun h => ?_, fun h => ?_, fun h => ?_⟩
  · exact absurd h.uv_offset (by decide)
  · exact absurd h.uv_offset (by decide)
  · exact absurd h.uv_offset (by decide)

end Streambox.Element.PlaneLayout
