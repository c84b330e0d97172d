import Streambox.Lib.Run
import Streambox.Vulkan.ImageCache

/-! libvfmcap, vfmcap_vulkan.c: do the import caches return the buffer that was asked for?

    Entries are found by the number of a descriptor, and numbers are reused: the caller closes a
    descriptor, the kernel gives its number to another DMA-buf, and the old import is still there
    under it. What tells them apart is the inode.

        fd 5 ─▶ buffer A        get 5 ─▶ entry (5, inode A)
        close 5, fd 5 ─▶ buffer B        get 5 ─▶ inode differs: destroy, import again

    `made` says of each object of a cache what it was imported from and as what. An import keeps its
    DMA-buf alive, so the inode in a valid entry is still that buffer's and no other's. The caches
    have objects of their own; those of one cache are numbered in the order they are made. -/

namespace Streambox.Vulkan.ImportCaches
open Streambox.Lib DmabufCache ImageCache

variable {κ : Type}

/-! ### The caches -/

/-- A cache, and for each of its objects the DMA-buf it was imported from and what it was imported
    as. -/
structure Tracked (κ : Type) extends Cached κ where
  made : List (Nat × κ)

/-- One lookup of a descriptor that denotes DMA-buf `b`; what is imported is what it denotes. -/
def Tracked.get [DecidableEq κ] (closesDup : Bool) (frameCount : Nat) (inode : Nat → Nat)
    (s : Tracked κ) (fd : Int) (b : Nat) (k : κ) (dup : Option Nat) (e : ImportEnd) :
    Option (Tracked κ × Option Nat) :=
  (cacheGet closesDup frameCount s.toCached fd k ⟨inode b, dup, e⟩).map fun r =>
    (⟨r.1, s.made ++ List.replicate (r.1.objects - s.objects) (b, k)⟩, r.2)

/-- `cached_output`, the cache of one entry. -/
structure OutputCache extends Device where
  entry : CacheEntry Nat
  made : List (Nat × Nat)

/-- `cache_entry_destroy` for it. -/
def OutputCache.destroy (s : OutputCache) : OutputCache :=
  if s.entry.valid then
    { s with
      entry := { s.entry with valid := false, fd := -1, fdDup := -1 }
      ops := s.ops ++ s.entry.destroyOps false }
  else s

/-- `dup` and `import_dmabuf` into it. -/
def OutputCache.importInto (s : OutputCache) (inode : Nat → Nat) (fd : Int) (b size : Nat)
    (e : ImportEnd) : Option Nat → OutputCache × Option Nat
  | none => (s, none)
  | some fdDup =>
    let obj := s.objects
    let t : OutputCache := { s with
      objects := obj + 1
      ops := s.ops ++ .opened fdDup :: importDmabuf fdDup obj e
      made := s.made ++ [(b, size)] }
    if e = .done then
      ({ t with entry := ⟨fd, size, fdDup, inode b, obj, true, s.entry.lastUsed⟩ }, some obj)
    else (t, none)

/-- `output_cache_get`. -/
def OutputCache.get (inode : Nat → Nat) (s : OutputCache) (fd : Int) (b size : Nat)
    (dup : Option Nat) (e : ImportEnd) : OutputCache × Option Nat :=
  if s.entry.valid && s.entry.fd = fd && s.entry.key = size && !s.entry.stale (inode b) then
    (s, some s.entry.object)
  else s.destroy.importInto inode fd b size e dup

/-! ### The process -/

/-- The three caches, the frame counter, and which DMA-buf a descriptor denotes. -/
structure World where
  input : Tracked Nat
  output : OutputCache
  image : Tracked ImageKey
  frameCount : Nat
  table : Int → Option Nat

/-- `vfmcap_vk_init`: the caches are empty. -/
def init : World where
  input := ⟨⟨⟨fun _ => .unused 0, 0⟩, ⟨0, []⟩⟩, []⟩
  output := ⟨⟨0, []⟩, .unused 0, []⟩
  image := ⟨⟨⟨fun _ => .unused ⟨0, 0, .undefined, 0, 0⟩, 0⟩, ⟨0, []⟩⟩, []⟩
  frameCount := 0
  table := fun _ => none

/-- What becomes of the descriptors; those that are opened are duplicates. -/
def track (b : Nat) (table : Int → Option Nat) : Op → Int → Option Nat
  | .opened fd => Function.update table fd (some b)
  | .closed fd => Function.update table fd none
  | _ => table

def trackAll (b : Nat) (table : Int → Option Nat) (before after : List Op) : Int → Option Nat :=
  (after.drop before.length).foldl (track b) table

/-- What happens: the kernel gives a free number to a DMA-buf, a descriptor is closed (by the
    caller, or by Vulkan, which owns the duplicates it has imported), a frame is counted, or a
    lookup is made with these outcomes of `dup` and of the import. -/
inductive Act where
  | opened (fd : Int) (b : Nat)
  | closed (fd : Int)
  | frame
  | inputGet (fd : Int) (size : Nat) (dup : Option Nat) (e : ImportEnd)
  | outputGet (fd : Int) (size : Nat) (dup : Option Nat) (e : ImportEnd)
  | imageGet (fd : Int) (k : ImageKey) (dup : Option Nat) (e : ImportEnd)

/-- `input_cache_get`. -/
def inputCacheGet (inode : Nat → Nat) (w : World) (fd : Int) (b size : Nat) (dup : Option Nat)
    (e : ImportEnd) : Option (Tracked Nat × Option Nat) :=
  w.input.get false w.frameCount inode fd b size dup e

/-- `image_cache_get`. -/
def imageCacheGet (inode : Nat → Nat) (w : World) (fd : Int) (b : Nat) (k : ImageKey)
    (dup : Option Nat) (e : ImportEnd) : Option (Tracked ImageKey × Option Nat) :=
  w.image.get true w.frameCount inode fd b k dup e

/-- One step. A lookup is made with a descriptor that is open, and the counter does not come to
    `UINT64_MAX`, which it would after 2^64 - 1 frames. -/
def step (inode : Nat → Nat) (w : World) : Act → Option World
  | .opened fd b =>
    if (w.table fd).isNone then some { w with table := Function.update w.table fd (some b) } else none
  | .closed fd => some { w with table := Function.update w.table fd none }
  | .frame =>
    if w.frameCount + 1 < 2 ^ 64 - 1 then some { w with frameCount := w.frameCount + 1 } else none
  | .inputGet fd size dup e => (w.table fd).bind fun b =>
      (inputCacheGet inode w fd b size dup e).map fun r =>
        { w with input := r.1, table := trackAll b w.table w.input.ops r.1.ops }
  | .outputGet fd size dup e => (w.table fd).map fun b =>
      let r := w.output.get inode fd b size dup e
      { w with output := r.1, table := trackAll b w.table w.output.ops r.1.ops }
  | .imageGet fd k dup e => (w.table fd).bind fun b =>
      (imageCacheGet inode w fd b k dup e).map fun r =>
        { w with image := r.1, table := trackAll b w.table w.image.ops r.1.ops }

/-! ### What an entry says is so -/

/-- The largest `uint64_t`, where the search for the oldest entry starts. -/
def uint64Max : Nat := 2 ^ 64 - 1

/-- The valid entries have living objects, which were imported as the entries say from a DMA-buf
    with the inode they say. -/
structure Faithful (inode : Nat → Nat) (s : Tracked κ) : Prop where
  sound : DmabufCache.Sound s.toCached
  length : s.made.length = s.objects
  entries : ∀ i, (s.slots i).valid = true → ∃ b,
    s.made[(s.slots i).object]? = some (b, (s.slots i).key) ∧ (s.slots i).inode = inode b
  used : ∀ i, (s.slots i).lastUsed < uint64Max

/-- An import of the DMA-buf is in the cache. -/
def Tracked.Keeps (s : Tracked κ) (b : Nat) : Prop :=
  ∃ i k, (s.slots i).valid = true ∧ s.made[(s.slots i).object]? = some (b, k)

variable {inode : Nat → Nat} {closesDup : Bool} {frameCount : Nat} {s : Tracked κ} {fd : Int}
  {b : Nat} {k : κ} {dup : Option Nat} {e : ImportEnd} {i : Fin dmabufCacheSize}

/-- The import into a slot, with what the new object was made from. -/
def Tracked.importInto (frameCount : Nat) (inode : Nat → Nat) (s : Tracked κ)
    (i : Fin dmabufCacheSize) (fd : Int) (b : Nat) (k : κ) (dup : Option Nat) (e : ImportEnd) :
    Tracked κ × Option Nat :=
  let r := DmabufCache.importInto frameCount s.toCached i fd k ⟨inode b, dup, e⟩
  (⟨r.1, s.made ++ List.replicate (r.1.objects - s.objects) (b, k)⟩, r.2)

/-- The search finds a slot if it has one before it ends, or comes to one. -/
theorem foldl_oldest_isSome (u : Fin dmabufCacheSize → Nat) (l : List (Fin dmabufCacheSize))
    (acc : Nat × Option (Fin dmabufCacheSize)) (h : acc.2.isSome ∨ ∃ i ∈ l, u i < acc.1) :
    (l.foldl (fun acc i => if u i < acc.1 then (u i, some i) else acc) acc).2.isSome := by
  induction l generalizing acc with
  | nil =>
    rcases h with h | ⟨i, hi, -⟩
    · exact h
    · exact absurd hi List.not_mem_nil
  | cons j l ih =>
    rw [List.foldl_cons]
    by_cases hj : u j < acc.1
    · rw [if_pos hj]
      exact ih _ (.inl rfl)
    · rw [if_neg hj]
      refine ih acc (h.imp_right ?_)
      rintro ⟨i, hi, hlt⟩
      rcases List.mem_cons.mp hi with rfl | hi
      · exact absurd hlt hj
      · exact ⟨i, hi, hlt⟩

theorem Faithful.oldest (h : Faithful inode s) : ∃ i, s.toCache.oldest = some i := by
  let first : Fin dmabufCacheSize := ⟨0, by decide⟩
  exact Option.isSome_iff_exists.mp (foldl_oldest_isSome (fun i => (s.slots i).lastUsed) _ _
    (.inr ⟨first, List.mem_finRange _, h.used first⟩))

theorem Faithful.valid (h : Faithful inode s) (i : Fin dmabufCacheSize)
    (hi : (s.slots i).valid = true) : i.val < s.count ∧ Op.destroyed (s.slots i).object ∉ s.ops :=
  ⟨h.sound.below i hi, h.sound.live i hi⟩

theorem destroy_invalid (closesDup : Bool) (u : Cached κ) (i : Fin dmabufCacheSize) :
    ((entryDestroy closesDup u i).slots i).valid = false := by
  by_cases hvalid : (u.slots i).valid = true
  · simp [entryDestroy, hvalid, Cached.setEntry, Cached.log]
  · rw [entryDestroy, if_neg hvalid]
    exact Bool.eq_false_iff.mpr hvalid

section lookup
variable [DecidableEq κ]

end lookup

/-! ### The output cache -/

/-- The entry's import keeps the DMA-buf alive. -/
def OutputCache.Keeps (s : OutputCache) (b : Nat) : Prop :=
  s.entry.valid = true ∧ ∃ size, s.made[s.entry.object]? = some (b, size)

variable {o : OutputCache} {size : Nat}

/-- The DMA-buf is kept alive: a descriptor denotes it, or a cache has an import of it. -/
def World.Live (w : World) (b : Nat) : Prop :=
  (∃ fd, w.table fd = some b) ∨ w.input.Keeps b ∨ w.output.Keeps b ∨ w.image.Keeps b

variable {w : World}

end Streambox.Vulkan.ImportCaches
