import Mathlib.Algebra.Group.Nat.Defs
import Mathlib.Logic.Function.Basic
import Mathlib.Data.List.FinRange
import Mathlib.Data.List.Perm.Subperm

/-! libvfmcap, vfmcap_vulkan.c: importing DMA-bufs into Vulkan, and the caches of what was imported.

    Images (`image_cache`) and buffers (`input_cache`) are cached the same way: under the number of
    their descriptor and what they were imported as, in `DMABUF_CACHE_SIZE` slots of which the least
    recently used is taken when all are taken. Use is measured in frames. The caches differ in what
    happens to the duplicate of the descriptor that was imported when an entry is destroyed.

    Vulkan's objects are numbered in the order they are made, so that no two have the same name. The
    image (or buffer), the memory and the view of one import are made together and destroyed together
    and have one number. What the code does with objects and with file descriptors is written down in
    the order it happens. -/

namespace Streambox.Vulkan

/-- What is done with descriptors and objects. `opened` is a successful `dup` or heap allocation,
    `imported` a successful `vkAllocateMemory` that names the descriptor. -/
inductive Op
  | opened (fd : Int)
  | closed (fd : Int)
  | created (obj : Nat)
  | imported (fd : Int) (obj : Nat)
  | destroyed (obj : Nat)
  deriving DecidableEq, Repr

/-- How many objects were made so far, and what was done. -/
structure Device where
  objects : Nat
  ops : List Op
  deriving DecidableEq, Repr

/-- How the import of a DMA-buf ends. `notBound` also stands for a view that could not be made. -/
inductive ImportEnd
  | notCreated
  | noMemoryType
  | notAllocated
  | notBound
  | done
  deriving DecidableEq, Repr

/-- import_dmabuf_image, and import_dmabuf with a buffer in place of the image and its view: what is
    done with the descriptor and with the new object. -/
def importDmabuf (fd : Int) (obj : Nat) : ImportEnd → List Op
  | .notCreated => [.closed fd]
  | .noMemoryType => [.created obj, .destroyed obj]
  | .notAllocated => [.created obj, .destroyed obj, .closed fd]
  | .notBound => [.created obj, .imported fd obj, .destroyed obj]
  | .done => [.created obj, .imported fd obj]

namespace DmabufCache

/-- DMABUF_CACHE_SIZE. -/
def dmabufCacheSize : Nat := 2

/-- ImageCacheEntry and DmabufCacheEntry; `key` is what the DMA-buf is imported as. The handles of
    an entry that is not valid are never read and are left out. -/
structure CacheEntry (κ : Type) where
  fd : Int
  key : κ
  fdDup : Int
  inode : Nat
  object : Nat
  valid : Bool
  lastUsed : Nat
  deriving DecidableEq, Repr

/-- The slots of a cache and how many of them are in use. -/
structure Cache (κ : Type) where
  slots : Fin dmabufCacheSize → CacheEntry κ
  count : Nat

/-- A cache and the device its objects live on. -/
structure Cached (κ : Type) extends Cache κ, Device

/-- Answers for one lookup: the inode of the descriptor (0 if it cannot be had), the duplicate, and
    how the import ends. -/
structure LookupEnv where
  inode : Nat
  dup : Option Nat
  importEnd : ImportEnd
  deriving DecidableEq, Repr

variable {κ : Type} {closesDup : Bool} {frameCount : Nat}

def Cached.setEntry (s : Cached κ) (i : Fin dmabufCacheSize) (e : CacheEntry κ) : Cached κ :=
  { s with slots := Function.update s.slots i e }

def Cached.log (s : Cached κ) (ops : List Op) : Cached κ := { s with ops := s.ops ++ ops }

/-- What is done when a valid entry is destroyed. `closesDup` says that the duplicate is closed. -/
def CacheEntry.destroyOps (closesDup : Bool) (e : CacheEntry κ) : List Op :=
  .destroyed e.object :: if closesDup && decide (e.fdDup ≥ 0) then [.closed e.fdDup] else []

/-- image_cache_entry_destroy with `closesDup`, cache_entry_destroy without. -/
def entryDestroy (closesDup : Bool) (s : Cached κ) (i : Fin dmabufCacheSize) : Cached κ :=
  let e := s.slots i
  if e.valid then
    (s.setEntry i { e with valid := false, fd := -1, fdDup := -1 }).log (e.destroyOps closesDup)
  else s

/-- The first slot with a valid entry for that descriptor and key. -/
def Cache.find [DecidableEq κ] (s : Cache κ) (fd : Int) (k : κ) : Option (Fin dmabufCacheSize) :=
  (List.finRange dmabufCacheSize).find? fun i =>
    i.val < s.count && (s.slots i).valid && (s.slots i).fd = fd && (s.slots i).key = k

/-- The number of the descriptor has been given to another DMA-buf since the import. -/
def CacheEntry.stale (e : CacheEntry κ) (inode : Nat) : Bool :=
  inode != 0 && e.inode != 0 && e.inode != inode

/-- The slot whose entry was used the longest time ago, the first one of several. There is none if
    no entry was used before frame `UINT64_MAX`; the code would then write in front of the array. -/
def Cache.oldest (s : Cache κ) : Option (Fin dmabufCacheSize) :=
  ((List.finRange dmabufCacheSize).foldl
    (fun acc i => if (s.slots i).lastUsed < acc.1 then ((s.slots i).lastUsed, some i) else acc)
    (2 ^ 64 - 1, none)).2

/-- A hit counts as use. -/
def Cached.touch (s : Cached κ) (frameCount : Nat) (i : Fin dmabufCacheSize) : Cached κ :=
  s.setEntry i { s.slots i with lastUsed := frameCount }

/-- Duplicate the descriptor, import the duplicate and enter the object in slot `i`. -/
def importInto (frameCount : Nat) (s : Cached κ) (i : Fin dmabufCacheSize) (fd : Int) (k : κ)
    (env : LookupEnv) : Cached κ × Option Nat :=
  match env.dup with
  | none => (s, none)
  | some fdDup =>
    let obj := s.objects
    let t := { s with objects := obj + 1 }.log
      (.opened fdDup :: importDmabuf fdDup obj env.importEnd)
    if env.importEnd = .done then
      (t.setEntry i ⟨fd, k, fdDup, env.inode, obj, true, frameCount⟩, some obj)
    else (t, none)

/-- image_cache_get and input_cache_get: the new cache, and the object or an error. The outer `none`
    is the write in front of the array. -/
def cacheGet [DecidableEq κ] (closesDup : Bool) (frameCount : Nat) (s : Cached κ) (fd : Int) (k : κ)
    (env : LookupEnv) : Option (Cached κ × Option Nat) :=
  match s.find fd k with
  | some i =>
    if (s.slots i).stale env.inode then
      some (importInto frameCount (entryDestroy closesDup s i) i fd k env)
    else some (s.touch frameCount i, some (s.slots i).object)
  | none =>
    if h : s.count < dmabufCacheSize then
      some (importInto frameCount { s with count := s.count + 1 } ⟨_, h⟩ fd k env)
    else s.oldest.map fun i => importInto frameCount (entryDestroy closesDup s i) i fd k env

/-- Destroy the entries below the count, as before the count is set back. -/
def destroyEntries (closesDup : Bool) (s : Cached κ) : Cached κ :=
  ((List.finRange dmabufCacheSize).filter (·.val < s.count)).foldl (entryDestroy closesDup) s

/-- An entry as vfmcap_vk_init leaves it. -/
def CacheEntry.unused (k : κ) : CacheEntry κ := ⟨-1, k, 0, 0, 0, false, 0⟩

/-! ### What becomes of an object that was looked up -/

/-- The object is in the cache, under that descriptor. -/
def Cached.Holds (s : Cached κ) (fd : Int) (object : Nat) : Prop :=
  ∃ i, i.val < s.count ∧ (s.slots i).valid = true ∧ (s.slots i).fd = fd ∧
    (s.slots i).object = object

/-- An object in the cache stays there or is destroyed, and what was done was done. -/
structure Keeps (s t : Cached κ) : Prop where
  holds : ∀ fd object, s.Holds fd object → t.Holds fd object ∨ Op.destroyed object ∈ t.ops
  ops : ∀ op ∈ s.ops, op ∈ t.ops

theorem Keeps.rfl {s : Cached κ} : Keeps s s := ⟨fun _ _ h => .inl h, fun _ h => h⟩

theorem Keeps.trans {s t u : Cached κ} (hst : Keeps s t) (htu : Keeps t u) : Keeps s u := by
  refine ⟨fun fd object h => ?_, fun op h => htu.ops op (hst.ops op h)⟩
  rcases hst.holds fd object h with h | h
  · exact htu.holds fd object h
  · exact .inr (htu.ops _ h)

/-- Still in the cache, or destroyed. -/
def Cached.HoldsOrDestroyed (s : Cached κ) (fd : Int) (object : Nat) : Prop :=
  s.Holds fd object ∨ Op.destroyed object ∈ s.ops

theorem Keeps.holdsOrDestroyed {s t : Cached κ} (h : Keeps s t) {fd : Int} {object : Nat} :
    s.HoldsOrDestroyed fd object → t.HoldsOrDestroyed fd object := by
  rintro (held | gone)
  · exact h.holds fd object held
  · exact .inr (h.ops _ gone)

/-- Nothing but slot `i` changes. -/
structure Spares (i : Fin dmabufCacheSize) (s t : Cached κ) : Prop where
  slots : ∀ j, j ≠ i → t.slots j = s.slots j
  count : t.count = s.count
  ops : ∀ op ∈ s.ops, op ∈ t.ops

theorem destroy_spares (closesDup : Bool) (s : Cached κ) (i : Fin dmabufCacheSize) :
    Spares i s (entryDestroy closesDup s i) := by
  unfold entryDestroy
  by_cases hvalid : (s.slots i).valid = true
  · rw [if_pos hvalid]
    refine ⟨fun j hj => ?_, rfl, fun op hop => List.mem_append_left _ hop⟩
    exact Function.update_of_ne hj _ _
  · rw [if_neg hvalid]
    exact ⟨fun _ _ => rfl, rfl, fun _ h => h⟩

/-- Destroying an entry takes its object out of the cache and says so. -/
theorem destroy_keeps (s : Cached κ) (i : Fin dmabufCacheSize) :
    Keeps s (entryDestroy closesDup s i) := by
  have spares := destroy_spares closesDup s i
  refine ⟨?_, spares.ops⟩
  rintro fd object ⟨j, hj, hvalid, hfd, hobject⟩
  by_cases hji : j = i
  · right
    subst hji
    rw [entryDestroy, if_pos hvalid, ← hobject]
    exact List.mem_append_right _ (List.mem_cons_self ..)
  · left
    refine ⟨j, spares.count ▸ hj, ?_⟩
    rw [spares.slots j hji]
    exact ⟨hvalid, hfd, hobject⟩

theorem importInto_spares (frameCount : Nat) (s : Cached κ) (i : Fin dmabufCacheSize) (fd : Int)
    (k : κ) (env : LookupEnv) :
    Spares i s (importInto frameCount s i fd k env).1 := by
  unfold importInto
  cases env.dup with
  | none => exact ⟨fun _ _ => rfl, rfl, fun _ h => h⟩
  | some fdDup =>
    dsimp only
    split_ifs
    · refine ⟨fun j hj => ?_, rfl, fun op hop => List.mem_append_left _ hop⟩
      exact Function.update_of_ne hj _ _
    · exact ⟨fun _ _ => rfl, rfl, fun op hop => List.mem_append_left _ hop⟩

/-- An object that was imported is in its slot. -/
theorem importInto_holds {s : Cached κ} {i : Fin dmabufCacheSize} {fd : Int} {k : κ}
    {env : LookupEnv} {object : Nat} (hi : i.val < s.count)
    (h : (importInto frameCount s i fd k env).2 = some object) :
    (importInto frameCount s i fd k env).1.Holds fd object := by
  unfold importInto at h ⊢
  cases hdup : env.dup with
  | none =>
    rw [hdup] at h
    cases h
  | some fdDup =>
    rw [hdup] at h
    dsimp only at h ⊢
    by_cases hdone : env.importEnd = .done
    · rw [if_pos hdone] at h ⊢
      refine ⟨i, hi, ?_⟩
      simpa [Cached.setEntry] using h
    · rw [if_neg hdone] at h
      cases h

theorem destroy_invalid (s : Cached κ) (i : Fin dmabufCacheSize) :
    ((entryDestroy closesDup s i).slots i).valid = false := by
  by_cases hvalid : (s.slots i).valid = true
  · simp [entryDestroy, hvalid, Cached.setEntry, Cached.log]
  · simp [entryDestroy, hvalid]

/-- Importing into a slot whose entry has been destroyed. -/
theorem reimport_keeps (s : Cached κ) (i : Fin dmabufCacheSize) (fd : Int) (k : κ)
    (env : LookupEnv) :
    Keeps s (importInto frameCount (entryDestroy closesDup s i) i fd k env).1 := by
  have spares := importInto_spares frameCount (entryDestroy closesDup s i) i fd k env
  refine ⟨fun fd object hheld => ?_, fun op hop =>
    spares.ops op ((destroy_spares closesDup s i).ops op hop)⟩
  rcases (destroy_keeps s i).holds fd object hheld with ⟨j, hj, hvalid, hrest⟩ | hgone
  · left
    have hji : j ≠ i := by
      rintro rfl
      rw [destroy_invalid] at hvalid
      cases hvalid
    refine ⟨j, spares.count ▸ hj, ?_⟩
    rw [spares.slots j hji]
    exact ⟨hvalid, hrest⟩
  · exact .inr (spares.ops _ hgone)

/-- Importing into the first slot that was never used. -/
theorem extend_keeps (s : Cached κ) (h : s.count < dmabufCacheSize) (fd : Int) (k : κ)
    (env : LookupEnv) :
    Keeps s (importInto frameCount { s with count := s.count + 1 } ⟨_, h⟩ fd k env).1 := by
  have spares := importInto_spares frameCount { s with count := s.count + 1 } ⟨_, h⟩ fd k env
  refine ⟨?_, spares.ops⟩
  rintro fd object ⟨j, hj, hheld⟩
  have hslot := spares.slots j fun hji => Nat.ne_of_lt hj (congrArg Fin.val hji)
  refine .inl ⟨j, ?_, ?_⟩
  · rw [spares.count]
    exact Nat.lt_succ_of_lt hj
  · rw [hslot]
    exact hheld

theorem touch_entry (s : Cached κ) (i j : Fin dmabufCacheSize) :
    ((s.touch frameCount i).slots j).valid = (s.slots j).valid ∧
    ((s.touch frameCount i).slots j).fd = (s.slots j).fd ∧
    ((s.touch frameCount i).slots j).object = (s.slots j).object := by
  by_cases hji : j = i
  · subst hji
    simp [Cached.touch, Cached.setEntry]
  · simp [Cached.touch, Cached.setEntry, Function.update_of_ne hji]

theorem touch_holds {s : Cached κ} {i : Fin dmabufCacheSize} {fd : Int} {object : Nat} :
    (s.touch frameCount i).Holds fd object ↔ s.Holds fd object := by
  refine exists_congr fun j => and_congr Iff.rfl ?_
  obtain ⟨hvalid, hkey, hobject⟩ := touch_entry s i j
  rw [hvalid, hkey, hobject]

theorem touch_keeps (s : Cached κ) (i : Fin dmabufCacheSize) : Keeps s (s.touch frameCount i) :=
  ⟨fun _ _ h => .inl (touch_holds.mpr h), fun _ h => h⟩

theorem find_holds [DecidableEq κ] {s : Cached κ} {fd : Int} {k : κ} {i : Fin dmabufCacheSize}
    (h : s.find fd k = some i) :
    i.val < s.count ∧ s.Holds fd (s.slots i).object := by
  have hfound := List.find?_some h
  simp only [Bool.and_eq_true, decide_eq_true_eq] at hfound
  obtain ⟨⟨⟨hi, hvalid⟩, hfd⟩, -⟩ := hfound
  exact ⟨hi, i, hi, hvalid, hfd, rfl⟩

/-- A lookup keeps or destroys what is in the cache, and what it returns is in the cache. -/
theorem cacheGet_spec [DecidableEq κ] {s t : Cached κ} {fd : Int} {k : κ} {env : LookupEnv}
    {r : Option Nat}
    (h : cacheGet closesDup frameCount s fd k env = some (t, r)) :
    Keeps s t ∧ ∀ object, r = some object → t.Holds fd object := by
  unfold cacheGet at h
  cases hfind : s.find fd k with
  | some i =>
    obtain ⟨hi, hheld⟩ := find_holds hfind
    simp only [hfind] at h
    split_ifs at h with hstale
    · obtain ⟨rfl, rfl⟩ := Prod.mk.inj (Option.some_inj.mp h)
      refine ⟨reimport_keeps s i fd k env, fun object hobject => importInto_holds ?_ hobject⟩
      rwa [(destroy_spares closesDup s i).count]
    · obtain ⟨rfl, rfl⟩ := Prod.mk.inj (Option.some_inj.mp h)
      refine ⟨touch_keeps s i, ?_⟩
      rintro object ⟨⟩
      exact touch_holds.mpr hheld
  | none =>
    simp only [hfind] at h
    split_ifs at h with hcount
    · obtain ⟨rfl, rfl⟩ := Prod.mk.inj (Option.some_inj.mp h)
      exact ⟨extend_keeps s hcount fd k env, fun object hobject =>
        importInto_holds (Nat.lt_succ_self _) hobject⟩
    · obtain ⟨i, -, hr⟩ := Option.map_eq_some_iff.mp h
      obtain ⟨rfl, rfl⟩ := Prod.mk.inj hr
      refine ⟨reimport_keeps s i fd k env, fun object hobject => importInto_holds ?_ hobject⟩
      rw [(destroy_spares closesDup s i).count]
      exact lt_of_lt_of_le i.isLt (not_lt.mp hcount)

/-- The cache has room for `DMABUF_CACHE_SIZE` descriptors. -/
theorem holds_length_le {s : Cached κ} {fds : List Int} (hnodup : fds.Nodup)
    (h : ∀ fd ∈ fds, ∃ object, s.Holds fd object) : fds.length ≤ dmabufCacheSize := by
  have hsub : fds ⊆ (List.finRange dmabufCacheSize).map fun i => (s.slots i).fd := by
    intro fd hfd
    obtain ⟨object, i, -, -, hkey, -⟩ := h fd hfd
    exact List.mem_map.mpr ⟨i, List.mem_finRange i, hkey⟩
  have hle := (hnodup.subperm hsub).length_le
  rwa [List.length_map, List.length_finRange] at hle

/-- Valid entries lie below the count and have different objects, none of them destroyed; objects
    that are yet to be made have not been destroyed. -/
structure Sound (s : Cached κ) : Prop where
  below : ∀ i, (s.slots i).valid = true → i.val < s.count
  made : ∀ i, (s.slots i).valid = true → (s.slots i).object < s.objects
  live : ∀ i, (s.slots i).valid = true → Op.destroyed (s.slots i).object ∉ s.ops
  apart : ∀ i j, (s.slots i).valid = true → (s.slots j).valid = true →
    (s.slots i).object = (s.slots j).object → i = j
  past : ∀ obj, Op.destroyed obj ∈ s.ops → obj < s.objects

theorem destroy_entry (s : Cached κ) (i j : Fin dmabufCacheSize)
    (h : ((entryDestroy closesDup s i).slots j).valid = true) :
    j ≠ i ∧ (entryDestroy closesDup s i).slots j = s.slots j := by
  have hji : j ≠ i := by
    rintro rfl
    rw [destroy_invalid] at h
    cases h
  exact ⟨hji, (destroy_spares closesDup s i).slots j hji⟩

theorem destroyed_of_destroy {s : Cached κ} {i : Fin dmabufCacheSize} {obj : Nat}
    (h : Op.destroyed obj ∈ (entryDestroy closesDup s i).ops) :
    Op.destroyed obj ∈ s.ops ∨ (s.slots i).valid = true ∧ obj = (s.slots i).object := by
  unfold entryDestroy at h
  by_cases hvalid : (s.slots i).valid = true
  · rw [if_pos hvalid] at h
    rcases List.mem_append.mp h with h | h
    · exact .inl h
    · right
      unfold CacheEntry.destroyOps at h
      split_ifs at h <;> simp_all
  · rw [if_neg hvalid] at h
    exact .inl h

theorem destroy_objects (s : Cached κ) (i : Fin dmabufCacheSize) :
    (entryDestroy closesDup s i).objects = s.objects := by
  unfold entryDestroy
  by_cases hvalid : (s.slots i).valid = true
  · rw [if_pos hvalid]
    rfl
  · rw [if_neg hvalid]

theorem destroy_sound {s : Cached κ} (h : Sound s) (i : Fin dmabufCacheSize) :
    Sound (entryDestroy closesDup s i) where
  below j hj := by
    obtain ⟨-, hslot⟩ := destroy_entry s i j hj
    rw [hslot] at hj
    rw [(destroy_spares closesDup s i).count]
    exact h.below j hj
  made j hj := by
    obtain ⟨-, hslot⟩ := destroy_entry s i j hj
    rw [hslot] at hj ⊢
    rw [destroy_objects]
    exact h.made j hj
  live j hj hgone := by
    obtain ⟨hji, hslot⟩ := destroy_entry s i j hj
    rw [hslot] at hj hgone
    rcases destroyed_of_destroy hgone with hgone | ⟨hi, hobject⟩
    · exact h.live j hj hgone
    · exact hji (h.apart j i hj hi hobject)
  apart j k hj hk hobject := by
    obtain ⟨-, hslotj⟩ := destroy_entry s i j hj
    obtain ⟨-, hslotk⟩ := destroy_entry s i k hk
    rw [hslotj] at hj hobject
    rw [hslotk] at hk hobject
    exact h.apart j k hj hk hobject
  past obj hgone := by
    rw [destroy_objects]
    rcases destroyed_of_destroy hgone with hgone | ⟨hi, rfl⟩
    · exact h.past obj hgone
    · exact h.made i hi

theorem destroyed_of_import {fd : Int} {obj other : Nat} {e : ImportEnd}
    (h : Op.destroyed other ∈ importDmabuf fd obj e) : other = obj ∧ e ≠ .done := by
  cases e <;> simp_all [importDmabuf]

/-- What is destroyed once an import has been tried. -/
theorem destroyed_of_log {s : Cached κ} {fd : Int} {e : ImportEnd} {obj : Nat}
    (h : Op.destroyed obj ∈ ({ s with objects := s.objects + 1 }.log
      (.opened fd :: importDmabuf fd s.objects e)).ops) :
    Op.destroyed obj ∈ s.ops ∨ obj = s.objects ∧ e ≠ .done := by
  rcases List.mem_append.mp h with h | h
  · exact .inl h
  · rcases List.mem_cons.mp h with h | h
    · cases h
    · exact .inr (destroyed_of_import h)

/-- Trying an import disturbs no entry. -/
theorem log_import_sound {s : Cached κ} (h : Sound s) (fd : Int) (e : ImportEnd) :
    Sound ({ s with objects := s.objects + 1 }.log
      (.opened fd :: importDmabuf fd s.objects e)) where
  below := h.below
  made j hj := Nat.lt_succ_of_lt (h.made j hj)
  live j hj hgone := by
    rcases destroyed_of_log hgone with hgone | ⟨hobject, -⟩
    · exact h.live j hj hgone
    · exact Nat.ne_of_lt (h.made j hj) hobject
  apart := h.apart
  past obj hgone := by
    rcases destroyed_of_log hgone with hgone | ⟨rfl, -⟩
    · exact Nat.lt_succ_of_lt (h.past obj hgone)
    · exact Nat.lt_succ_self _

/-- An entry may be written if its object is alive and no other entry's. -/
theorem setEntry_sound {s : Cached κ} (h : Sound s) {i : Fin dmabufCacheSize} {e : CacheEntry κ}
    (hi : i.val < s.count) (hmade : e.object < s.objects)
    (hlive : Op.destroyed e.object ∉ s.ops)
    (hapart : ∀ j, j ≠ i → (s.slots j).valid = true → (s.slots j).object ≠ e.object) :
    Sound (s.setEntry i e) := by
  have hnew : (s.setEntry i e).slots i = e := Function.update_self ..
  have hother : ∀ j, j ≠ i → (s.setEntry i e).slots j = s.slots j :=
    fun j hj => Function.update_of_ne hj ..
  refine ⟨fun j hj => ?_, fun j hj => ?_, fun j hj => ?_, fun j l hj hl hobject => ?_, h.past⟩
  · rcases eq_or_ne j i with rfl | hji
    · exact hi
    · rw [hother j hji] at hj
      exact h.below j hj
  · rcases eq_or_ne j i with rfl | hji
    · rw [hnew]
      exact hmade
    · rw [hother j hji] at hj ⊢
      exact h.made j hj
  · rcases eq_or_ne j i with rfl | hji
    · rw [hnew]
      exact hlive
    · rw [hother j hji] at hj ⊢
      exact h.live j hj
  · rcases eq_or_ne j i with rfl | hji
    · rcases eq_or_ne l j with rfl | hlj
      · rfl
      · rw [hother l hlj] at hl hobject
        rw [hnew] at hobject
        exact absurd hobject.symm (hapart l hlj hl)
    · rw [hother j hji] at hj hobject
      rcases eq_or_ne l i with rfl | hli
      · rw [hnew] at hobject
        exact absurd hobject (hapart j hji hj)
      · rw [hother l hli] at hl hobject
        exact h.apart j l hj hl hobject

theorem importInto_sound {s : Cached κ} (h : Sound s) {i : Fin dmabufCacheSize}
    (hi : i.val < s.count) (fd : Int) (k : κ) (env : LookupEnv) :
    Sound (importInto frameCount s i fd k env).1 := by
  unfold importInto
  cases env.dup with
  | none => exact h
  | some fdDup =>
    have hlog := log_import_sound h fdDup env.importEnd
    dsimp only
    by_cases hdone : env.importEnd = .done
    · rw [if_pos hdone]
      refine setEntry_sound hlog hi (Nat.lt_succ_self _) ?_ ?_
      · intro hgone
        rcases destroyed_of_log hgone with hgone | ⟨-, hfailed⟩
        · exact Nat.lt_irrefl _ (h.past _ hgone)
        · exact hfailed hdone
      · intro j _ hj
        exact Nat.ne_of_lt (h.made j hj)
    · rw [if_neg hdone]
      exact hlog

theorem touch_sound {s : Cached κ} (h : Sound s) {i : Fin dmabufCacheSize}
    (hi : (s.slots i).valid = true) : Sound (s.touch frameCount i) :=
  setEntry_sound h (h.below i hi) (h.made i hi) (h.live i hi) fun j hji hj hobject =>
    hji (h.apart j i hj hi hobject)

theorem cacheGet_sound [DecidableEq κ] {s t : Cached κ} {fd : Int} {k : κ} {env : LookupEnv}
    {r : Option Nat}
    (h : Sound s) (hget : cacheGet closesDup frameCount s fd k env = some (t, r)) : Sound t := by
  unfold cacheGet at hget
  cases hfind : s.find fd k with
  | some i =>
    simp only [hfind] at hget
    have hfound := List.find?_some hfind
    simp only [Bool.and_eq_true, decide_eq_true_eq] at hfound
    split_ifs at hget with hstale
    · obtain ⟨rfl, -⟩ := Prod.mk.inj (Option.some_inj.mp hget)
      refine importInto_sound (destroy_sound h i) ?_ fd k env
      rw [(destroy_spares closesDup s i).count]
      exact hfound.1.1.1
    · obtain ⟨rfl, -⟩ := Prod.mk.inj (Option.some_inj.mp hget)
      exact touch_sound h hfound.1.1.2
  | none =>
    simp only [hfind] at hget
    split_ifs at hget with hcount
    · obtain ⟨rfl, -⟩ := Prod.mk.inj (Option.some_inj.mp hget)
      refine importInto_sound ?_ (Nat.lt_succ_self _) fd k env
      exact ⟨fun i hi => Nat.lt_succ_of_lt (h.below i hi), h.made, h.live, h.apart, h.past⟩
    · obtain ⟨i, -, hr⟩ := Option.map_eq_some_iff.mp hget
      obtain ⟨rfl, -⟩ := Prod.mk.inj hr
      refine importInto_sound (destroy_sound h i) ?_ fd k env
      rw [(destroy_spares closesDup s i).count]
      exact lt_of_lt_of_le i.isLt (not_lt.mp hcount)

theorem foldl_destroy_sound : ∀ (is : List (Fin dmabufCacheSize)) {s : Cached κ}, Sound s →
    Sound (is.foldl (entryDestroy closesDup) s)
  | [], _, h => h
  | i :: is, _, h => foldl_destroy_sound is (destroy_sound h i)

/-- An entry that is valid after some were destroyed is none of them. -/
theorem foldl_destroy_valid : ∀ (is : List (Fin dmabufCacheSize)) {s : Cached κ}
    {j : Fin dmabufCacheSize},
    ((is.foldl (entryDestroy closesDup) s).slots j).valid = true →
      (s.slots j).valid = true ∧ j ∉ is
  | [], _, _, h => ⟨h, List.not_mem_nil⟩
  | i :: is, s, j, h => by
    obtain ⟨hvalid, hnot⟩ := foldl_destroy_valid is h
    obtain ⟨hji, hslot⟩ := destroy_entry s i j hvalid
    rw [hslot] at hvalid
    exact ⟨hvalid, fun hmem => (List.mem_cons.mp hmem).elim hji hnot⟩

theorem destroyEntries_sound {s : Cached κ} (h : Sound s) : Sound (destroyEntries closesDup s) :=
  foldl_destroy_sound _ h

/-- Once the entries below the count are destroyed, none is valid. -/
theorem destroyEntries_invalid {s : Cached κ} (h : Sound s) (j : Fin dmabufCacheSize) :
    ((destroyEntries closesDup s).slots j).valid = false := by
  by_contra hvalid
  obtain ⟨hwas, hnot⟩ := foldl_destroy_valid _ (Bool.of_not_eq_false hvalid)
  refine hnot (List.mem_filter.mpr ⟨List.mem_finRange j, ?_⟩)
  exact decide_eq_true (h.below j hwas)

end DmabufCache
end Streambox.Vulkan
