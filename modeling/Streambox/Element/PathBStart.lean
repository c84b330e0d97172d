import Streambox.Lib.Custody
import Streambox.Lib.Run
import Mathlib.Data.List.Range
import Mathlib.Logic.Function.Basic

/-! streamboxsrc, `start_path_b`: what a start that fails leaves behind.

    The start opens vdin1, asks the driver for buffers and gives each a DMA-buf, and for 10-bit
    output it allocates the P010 pool, a DMA-buf and a duplicate for Vulkan each. Any of these steps
    may fail; all but the first few then jump to one label that undoes the rest.

        open ─▶ format ─▶ reqbufs ─▶ DMA-bufs ─▶ qbuf ─▶ streamon ─▶ vk, pool ─▶ monitor ─▶ TRUE
                  │           └──────────┴─────────┴─────────┴──────────┘
                  ▼                                 ▼
                close              monitor, pool, vk, DMA-bufs, close ─▶ FALSE

    A descriptor is known by the number of its opening, so that none is used twice. `acts` is what
    has been opened and closed since the last start began, and `counts` the value of `vdin1_n_bufs`
    each time `vdin1_bufs` has been indexed since. An index past the array ends the run: nothing is
    known from there on. -/

namespace Streambox.Element.PathBStart
open Streambox.Lib
open Streambox.Lib.Custody (Accounted)

/-! ### State -/

inductive SourceMode where
  | vfmcap
  | vdin1
  deriving DecidableEq, Repr

/-- `STREAMBOX_VDIN1_MAX_BUFFERS`: the length of `vdin1_bufs`. -/
def maxBuffers : Nat := 8

/-- `P010_OUT_POOL_SIZE`. -/
def outPoolSize : Nat := 4

/-- The element's fields that hold descriptors or count them; no descriptor is `-1`. `session` is
    the path the element was started on, if it is. `outDup` are the duplicates that the valid
    entries of `vk_output_pool_cache` have given to Vulkan. -/
structure Src where
  sourceMode : SourceMode
  numBuffers : Nat
  session : Option SourceMode
  vdin1Fd : Option Nat
  signalMonitorFd : Option Nat
  heapCmaFd : Option Nat
  nBufs : Nat
  dmaFd : Nat → Option Nat
  outCount : Nat
  outFd : Nat → Option Nat
  outDup : Nat → Option Nat
  vkInitialized : Bool
  next : Nat
  acts : List (Custody.Act Nat)
  counts : List Nat

/-- `gst_streambox_src_init`. -/
def init : Src where
  sourceMode := .vfmcap
  numBuffers := 6
  session := none
  vdin1Fd := none
  signalMonitorFd := none
  heapCmaFd := none
  nBufs := 0
  dmaFd := fun _ => none
  outCount := 0
  outFd := fun _ => none
  outDup := fun _ => none
  vkInitialized := false
  next := 0
  acts := []
  counts := []

/-- How `vdin1_vk_import_dmabuf` ends. -/
inductive Import where
  | noBuffer
  | noMemoryType
  | noMemory
  | notBound
  | imported
  deriving DecidableEq, Repr

/-- The answers for one entry of the P010 pool. -/
structure PoolAnswer where
  alloc : Bool
  dup : Bool
  imported : Import
  deriving DecidableEq, Repr

/-- The answers `start_path_b` gets. `setFormat` says whether the driver settles on AMLY, `reqbufs`
    what it grants for the count it is asked for. -/
structure Answers where
  openVdin1 : Bool
  querycap : Bool
  setInput : Bool
  setFormat : Option Bool
  reqbufs : Nat → Option Nat
  heap : Bool
  alloc : Nat → Bool
  qbuf : Nat → Bool
  streamon : Bool
  vkInit : Bool
  pool : Nat → PoolAnswer
  monitor : Bool
  subscribe : Bool

/-! ### Descriptors and entries -/

/-- The kernel opens descriptor `next`. -/
def Src.opened (s : Src) : Src := { s with next := s.next + 1, acts := s.acts ++ [.take s.next] }

def Src.close (s : Src) (fd : Nat) : Src := { s with acts := s.acts ++ [.drop fd] }

/-- `if (fd >= 0) close(fd)`; also a plain `close`, which does nothing for `-1`. -/
def Src.closeIf (s : Src) : Option Nat → Src
  | none => s
  | some fd => s.close fd

/-- `vdin1_bufs[i]` is read or written. -/
def Src.index (s : Src) (i : Nat) : Option Src :=
  if i < maxBuffers then some { s with counts := s.counts ++ [s.nBufs] } else none

/-- `alloc_cma_dmabuf`: the heap is opened on first use and stays open. -/
def openHeap (s : Src) (heap : Bool) : Src :=
  if s.heapCmaFd.isNone && heap then { s.opened with heapCmaFd := some s.next } else s

def allocCmaDmabuf (s : Src) (heap alloc : Bool) : Option Nat × Src :=
  let s := openHeap s heap
  if s.heapCmaFd.isSome && alloc then (some s.next, s.opened) else (none, s)

/-! ### The steps of a start -/

/-- A step that returns a `gboolean`. -/
def Stage := Src → Option (Bool × Src)

/-- `if (!f) goto fail;` and then `g`. -/
def Stage.andThen (f g : Stage) : Stage := fun s =>
  (f s).bind fun r => if r.1 then g r.2 else some r

/-- A step that only gets an answer. -/
def answered (ok : Bool) : Stage := fun s => some (ok, s)

/-- `vdin1_reqbufs`: what the driver grants is taken as it is. -/
def vdin1Reqbufs (e : Answers) : Stage := fun s =>
  match e.reqbufs (min s.numBuffers maxBuffers) with
  | none => some (false, s)
  | some n => if n < 3 then some (false, s) else some (true, { s with nBufs := n })

def allocFrom (e : Answers) : Nat → Nat → Src → Option (Bool × Src)
  | _, 0, s => some (true, s)
  | i, k + 1, s =>
    match allocCmaDmabuf s e.heap (e.alloc i) with
    | (none, s) => some (false, s)
    | (some fd, s) => (s.index i).bind fun s =>
        allocFrom e (i + 1) k { s with dmaFd := Function.update s.dmaFd i (some fd) }

def vdin1AllocDmabufs (e : Answers) : Stage := fun s => allocFrom e 0 s.nBufs s

def qbufFrom (e : Answers) : Nat → Nat → Src → Option (Bool × Src)
  | _, 0, s => some (true, s)
  | i, k + 1, s => (s.index i).bind fun s =>
      if e.qbuf i then qbufFrom e (i + 1) k s else some (false, s)

def vdin1QbufAll (e : Answers) : Stage := fun s => qbufFrom e 0 s.nBufs s

def freeFrom : Nat → Nat → Src → Option Src
  | _, 0, s => some s
  | i, k + 1, s => (s.index i).bind fun s =>
      freeFrom (i + 1) k { s.closeIf (s.dmaFd i) with dmaFd := Function.update s.dmaFd i none }

def vdin1FreeDmabufs (s : Src) : Option Src :=
  (freeFrom 0 s.nBufs s).map fun s => { s with nBufs := 0 }

/-- `vdin1_vk_import_dmabuf`: Vulkan owns the descriptor once the memory is allocated, and
    `vkFreeMemory` closes it. -/
def vdin1VkImportDmabuf (s : Src) (fd : Nat) : Import → Bool × Src
  | .noBuffer => (false, s.close fd)
  | .noMemoryType => (false, s)
  | .noMemory => (false, s)
  | .notBound => (false, s.close fd)
  | .imported => (true, s)

def vdin1VkInit (e : Answers) : Stage := fun s =>
  if s.vkInitialized then some (true, s)
  else if e.vkInit then some (true, { s with vkInitialized := true })
  else some (false, s)

def vdin1VkCleanup (s : Src) : Src := { s with vkInitialized := false }

/-- The DMA-buf of entry `i` is there. -/
def Src.addOut (s : Src) (i fd : Nat) : Src :=
  { s with outFd := Function.update s.outFd i (some fd), outCount := i + 1 }

def poolFrom (e : Answers) : Nat → Nat → Src → Bool × Src
  | _, 0, s => (true, s)
  | i, k + 1, s =>
    match allocCmaDmabuf s e.heap (e.pool i).alloc with
    | (none, s) => (false, s)
    | (some fd, s) =>
      let s := s.addOut i fd
      if (e.pool i).dup then
        match vdin1VkImportDmabuf s.opened s.next (e.pool i).imported with
        | (false, t) => (false, t)
        | (true, t) =>
          poolFrom e (i + 1) k { t with outDup := Function.update t.outDup i (some s.next) }
      else (false, s)

def p010PoolInit (e : Answers) : Stage := fun s =>
  some (poolFrom e 0 outPoolSize { s with outCount := 0 })

/-- An entry of the pool goes: its Vulkan objects, then its DMA-buf. -/
def dropOut (s : Src) (i : Nat) : Src :=
  { (s.closeIf (s.outDup i)).closeIf (s.outFd i) with
    outDup := Function.update s.outDup i none
    outFd := Function.update s.outFd i none }

def p010PoolCleanup (s : Src) : Src :=
  { (List.range s.outCount).foldl dropOut s with outCount := 0 }

/-- From the request for buffers to the pool. -/
def bringUp (e : Answers) (tenBit : Bool) : Stage :=
  (vdin1Reqbufs e).andThen <| (vdin1AllocDmabufs e).andThen <| (vdin1QbufAll e).andThen <|
    (answered e.streamon).andThen <|
      if tenBit then (vdin1VkInit e).andThen (p010PoolInit e) else answered true

/-- `close(self->vdin1_fd); self->vdin1_fd = -1`. -/
def closeVdin1 (s : Src) : Src := { s.closeIf s.vdin1Fd with vdin1Fd := none }

/-- `if (self->signal_monitor_fd >= 0)`: close it. -/
def closeMonitor (s : Src) : Src := { s.closeIf s.signalMonitorFd with signalMonitorFd := none }

/-- The label `fail`. -/
def cleanUp (s : Src) : Option Src :=
  (vdin1FreeDmabufs (vdin1VkCleanup (p010PoolCleanup (closeMonitor s)))).map closeVdin1

/-- The signal monitor, whose failures are not fatal. -/
def openMonitor (e : Answers) (s : Src) : Src :=
  if !e.monitor then { s with signalMonitorFd := none }
  else if !e.subscribe then { s.opened.close s.next with signalMonitorFd := none }
  else { s.opened with signalMonitorFd := some s.next }

/-- `start_path_b`. -/
def startPathB (e : Answers) (s : Src) : Option (Bool × Src) :=
  let s := { s with acts := [], counts := [] }
  if !e.openVdin1 then some (false, { s with vdin1Fd := none })
  else
    let s := { s.opened with vdin1Fd := some s.next }
    if !e.querycap then some (false, closeVdin1 s)
    else if !e.setInput then some (false, closeVdin1 s)
    else match e.setFormat with
      | none => some (false, closeVdin1 s)
      | some tenBit => (bringUp e tenBit s).bind fun r =>
          if r.1 then some (true, openMonitor e r.2) else (cleanUp r.2).map fun t => (false, t)

/-- `stop_path_b`. -/
def stopPathB (s : Src) : Option Src :=
  let s := vdin1VkCleanup (p010PoolCleanup s)
  let closed := if s.vdin1Fd.isSome then (vdin1FreeDmabufs s).map closeVdin1 else some s
  closed.map fun s => closeMonitor { s.closeIf s.heapCmaFd with heapCmaFd := none }

/-! ### The element -/

/-- What happens to the element. Path A has descriptors of its own and touches none of these. -/
inductive Op where
  | setSource (m : SourceMode)
  | setNumBuffers (n : Nat)
  | startA (ok : Bool)
  | startB (e : Answers)
  | stop

/-- One step. `GstBaseSrc` starts only what is not started, and stops only what is; both go by the
    source that is set then. -/
def step (s : Src) : Op → Option Src
  | .setSource m => some { s with sourceMode := m }
  | .setNumBuffers n => some { s with numBuffers := n }
  | .startA ok =>
    if s.session.isNone && s.sourceMode = .vfmcap then
      some { s with session := if ok then some .vfmcap else none }
    else some s
  | .startB e =>
    if s.session.isNone && s.sourceMode = .vdin1 then
      (startPathB e s).map fun r => { r.2 with session := if r.1 then some .vdin1 else none }
    else some s
  | .stop =>
    if s.session.isNone then some s
    else match s.sourceMode with
      | .vfmcap => some { s with session := none }
      | .vdin1 => (stopPathB s).map fun t => { t with session := none }

theorem closeIf_eq (s : Src) (o : Option Nat) :
    s.closeIf o = { s with acts := s.acts ++ o.toList.map Custody.Act.drop } := by
  cases o with
  | none => simp [Src.closeIf]
  | some fd => rfl

/-! ### The books -/

/-- What the fields hold of vdin1, its buffers and the pool. -/
def Src.fds (s : Src) : List Nat :=
  s.vdin1Fd.toList ++ ((List.range maxBuffers).filterMap s.dmaFd ++
    ((List.range outPoolSize).filterMap s.outFd ++ (List.range outPoolSize).filterMap s.outDup))

/-- The heap, unless it was open before. -/
def Src.newHeap (s : Src) (old : Bool) : List Nat := if old then [] else s.heapCmaFd.toList

/-- What the running call has opened and not closed is the heap if it has opened it, what the fields
    hold, and `lost`. -/
structure Books (old : Bool) (lost : List Nat) (s : Src) : Prop where
  known : old = true → s.heapCmaFd.isSome
  accounted : Accounted s.acts (s.newHeap old ++ (s.fds ++ lost))
  fresh : ∀ fd ∈ s.newHeap old ++ (s.fds ++ lost), fd < s.next

variable {old : Bool} {lost lost' : List Nat} {s t : Src}

theorem newHeap_congr (hheap : t.heapCmaFd = s.heapCmaFd) (old : Bool) :
    t.newHeap old = s.newHeap old := by
  simp [Src.newHeap, hheap]

/-- A descriptor changes its place. -/
theorem Books.moved (h : Books old lost s) (hacts : t.acts = s.acts) (hnext : t.next = s.next)
    (hheap : t.heapCmaFd = s.heapCmaFd) (hheld : (s.fds ++ lost).Perm (t.fds ++ lost')) :
    Books old lost' t := by
  have hperm : (s.newHeap old ++ (s.fds ++ lost)).Perm (t.newHeap old ++ (t.fds ++ lost')) := by
    rw [newHeap_congr hheap]
    exact hheld.append_left _
  refine ⟨fun ho => hheap ▸ h.known ho, ?_, fun fd hfd => ?_⟩
  · rw [hacts]
    exact h.accounted.perm hperm
  · rw [hnext]
    exact h.fresh fd (hperm.mem_iff.mpr hfd)

/-- A descriptor that is at no place yet is opened. -/
theorem Books.opened (h : Books old lost s) : Books old (s.next :: lost) s.opened := by
  have hperm : (s.next :: (s.newHeap old ++ (s.fds ++ lost))).Perm
      (s.newHeap old ++ (s.fds ++ s.next :: lost)) := by
    rw [← List.append_assoc, ← List.append_assoc]
    exact List.perm_middle.symm
  refine ⟨h.known, ?_, fun fd hfd => ?_⟩
  · exact (h.accounted.take fun hin => Nat.lt_irrefl _ (h.fresh _ hin)).perm hperm
  · rcases List.mem_cons.mp (hperm.mem_iff.mpr hfd) with rfl | hold
    · exact Nat.lt_succ_self _
    · exact Nat.lt_succ_of_lt (h.fresh fd hold)

/-- A descriptor that is at no place is closed. -/
theorem Books.close {fd : Nat} (h : Books old (fd :: lost) s) : Books old lost (s.close fd) := by
  have hperm : (s.newHeap old ++ (s.fds ++ fd :: lost)).Perm
      (fd :: (s.newHeap old ++ (s.fds ++ lost))) := by
    rw [← List.append_assoc, ← List.append_assoc]
    exact List.perm_middle
  refine ⟨h.known, (h.accounted.perm hperm).drop, fun x hx => ?_⟩
  exact h.fresh x (hperm.mem_iff.mpr (List.mem_cons_of_mem _ hx))

theorem Books.closeIf (o : Option Nat) (h : Books old (o.toList ++ lost) s) :
    Books old lost (s.closeIf o) := by
  cases o with
  | none => exact h
  | some fd => exact h.close

/-- An entry of an array is filled. -/
theorem filterMap_update {f : Nat → Option Nat} {i n : Nat} (hi : i < n) (hf : f i = none)
    (fd : Nat) : (fd :: (List.range n).filterMap f).Perm
      ((List.range n).filterMap (Function.update f i (some fd))) := by
  induction n with
  | zero => exact absurd hi (Nat.not_lt_zero i)
  | succ n ih =>
    rw [List.range_succ, List.filterMap_append, List.filterMap_append]
    by_cases hlast : i = n
    · subst hlast
      have hsame : (List.range i).filterMap (Function.update f i (some fd)) =
          (List.range i).filterMap f := by
        refine List.filterMap_congr fun j hj => ?_
        have hne : j ≠ i := (List.mem_range.mp hj).ne
        rw [Function.update_of_ne hne]
      simp only [hsame, List.filterMap_cons, List.filterMap_nil, Function.update_self, hf,
        List.append_nil]
      exact (List.perm_append_singleton fd _).symm
    · have hne : n ≠ i := fun h => hlast h.symm
      have hthere : [n].filterMap (Function.update f i (some fd)) = [n].filterMap f := by
        simp [List.filterMap_cons, Function.update_of_ne hne]
      rw [hthere]
      exact (ih (by omega)).append_right _

/-- An entry of an array is emptied. -/
theorem filterMap_clear (f : Nat → Option Nat) {i n : Nat} (hi : i < n) :
    ((List.range n).filterMap f).Perm
      ((f i).toList ++ (List.range n).filterMap (Function.update f i none)) := by
  cases hf : f i with
  | none =>
    rw [← hf, Function.update_eq_self, hf]
    exact .refl _
  | some fd =>
    have hfill := filterMap_update hi (Function.update_self i none f) fd
    rw [Function.update_idem, ← hf, Function.update_eq_self] at hfill
    exact hfill.symm

theorem filterMap_none {f : Nat → Option Nat} (hf : ∀ j, f j = none) (n : Nat) :
    (List.range n).filterMap f = [] := by
  simp [hf]

/-! ### Descriptors find their places -/

variable {i n fd : Nat}

theorem Books.putVdin1 (h : Books old (fd :: lost) s) (hnone : s.vdin1Fd = none) :
    Books old lost { s with vdin1Fd := some fd } := by
  refine h.moved rfl rfl rfl ?_
  simp only [Src.fds, hnone, Option.toList_none, Option.toList_some, List.nil_append]
  exact List.perm_middle

theorem count_fds (s : Src) (x : Nat) : s.fds.count x = s.vdin1Fd.toList.count x +
    (((List.range maxBuffers).filterMap s.dmaFd).count x +
      (((List.range outPoolSize).filterMap s.outFd).count x +
        ((List.range outPoolSize).filterMap s.outDup).count x)) := by
  rw [Src.fds, List.count_append, List.count_append, List.count_append]

theorem Books.takeVdin1 (h : Books old lost s) :
    Books old (s.vdin1Fd.toList ++ lost) { s with vdin1Fd := none } := by
  refine h.moved rfl rfl rfl (List.perm_iff_count.mpr fun x => ?_)
  rw [List.count_append, List.count_append, List.count_append, count_fds, count_fds]
  dsimp only [Option.toList_none, List.count_nil]
  omega

theorem Books.putDma (h : Books old (fd :: lost) s) (hi : i < maxBuffers)
    (hnone : s.dmaFd i = none) :
    Books old lost { s with dmaFd := Function.update s.dmaFd i (some fd) } := by
  refine h.moved rfl rfl rfl (List.perm_iff_count.mpr fun x => ?_)
  have hfill := List.perm_iff_count.mp (filterMap_update hi hnone fd) x
  rw [List.count_cons] at hfill
  rw [List.count_append, List.count_append, List.count_cons, count_fds, count_fds]
  dsimp only
  omega

theorem Books.takeDma (h : Books old lost s) (hi : i < maxBuffers) :
    Books old ((s.dmaFd i).toList ++ lost)
      { s with dmaFd := Function.update s.dmaFd i none } := by
  refine h.moved rfl rfl rfl (List.perm_iff_count.mpr fun x => ?_)
  have hclear := List.perm_iff_count.mp (filterMap_clear s.dmaFd hi) x
  rw [List.count_append] at hclear
  rw [List.count_append, List.count_append, List.count_append, count_fds, count_fds]
  dsimp only
  omega

theorem Books.putOut (h : Books old (fd :: lost) s) (hi : i < outPoolSize)
    (hnone : s.outFd i = none) : Books old lost (s.addOut i fd) := by
  refine h.moved rfl rfl rfl (List.perm_iff_count.mpr fun x => ?_)
  have hfill := List.perm_iff_count.mp (filterMap_update hi hnone fd) x
  rw [List.count_cons] at hfill
  rw [List.count_append, List.count_append, List.count_cons, count_fds, count_fds]
  dsimp only [Src.addOut]
  omega

theorem Books.putDup (h : Books old (fd :: lost) s) (hi : i < outPoolSize)
    (hnone : s.outDup i = none) :
    Books old lost { s with outDup := Function.update s.outDup i (some fd) } := by
  refine h.moved rfl rfl rfl (List.perm_iff_count.mpr fun x => ?_)
  have hfill := List.perm_iff_count.mp (filterMap_update hi hnone fd) x
  rw [List.count_cons] at hfill
  rw [List.count_append, List.count_append, List.count_cons, count_fds, count_fds]
  dsimp only
  omega

theorem Books.takeOut (h : Books old lost s) (hi : i < outPoolSize) :
    Books old ((s.outDup i).toList ++ ((s.outFd i).toList ++ lost))
      { s with
        outDup := Function.update s.outDup i none
        outFd := Function.update s.outFd i none } := by
  refine h.moved rfl rfl rfl (List.perm_iff_count.mpr fun x => ?_)
  have hdup := List.perm_iff_count.mp (filterMap_clear s.outDup hi) x
  have hout := List.perm_iff_count.mp (filterMap_clear s.outFd hi) x
  rw [List.count_append] at hdup hout
  rw [List.count_append, List.count_append, List.count_append, List.count_append, count_fds,
    count_fds]
  dsimp only
  omega

theorem Books.putHeap (h : Books old (fd :: lost) s) (hnone : s.heapCmaFd = none) :
    Books old lost { s with heapCmaFd := some fd } := by
  have hold : old = false := by
    cases old with
    | false => rfl
    | true => exact absurd (h.known rfl) (by simp [hnone])
  subst hold
  have hperm : (s.newHeap false ++ (s.fds ++ fd :: lost)).Perm ([fd] ++ (s.fds ++ lost)) := by
    simp only [Src.newHeap, hnone, Option.toList_none]
    exact List.perm_middle
  refine ⟨fun ho => absurd ho (by simp), h.accounted.perm hperm, fun x hx => ?_⟩
  exact h.fresh x (hperm.mem_iff.mpr hx)

/-! ### Allocations -/

variable {e : Answers}

/-- The heap is open, or will be. -/
def heapOk (e : Answers) (s : Src) : Bool := s.heapCmaFd.isSome || e.heap

theorem openHeap_spec (h : Books old lost s) (heap : Bool) : ∃ heap' next acts,
    openHeap s heap = { s with heapCmaFd := heap', next := next, acts := acts } ∧
      heap'.isSome = (s.heapCmaFd.isSome || heap) ∧ Books old lost (openHeap s heap) := by
  rw [openHeap]
  split
  · next hopen =>
    rw [Bool.and_eq_true, Option.isNone_iff_eq_none] at hopen
    exact ⟨some s.next, s.next + 1, s.acts ++ [.take s.next], rfl, by simp [hopen.2],
      h.opened.putHeap hopen.1⟩
  · next hkept =>
    refine ⟨s.heapCmaFd, s.next, s.acts, rfl, ?_, h⟩
    cases hheap : s.heapCmaFd with
    | some fd => rfl
    | none => simpa [hheap] using hkept

/-- `alloc_cma_dmabuf` hands out a descriptor exactly if the heap is open and has room. -/
theorem allocCmaDmabuf_spec (h : Books old lost s) (heap alloc : Bool) :
    ∃ r heap' next acts, allocCmaDmabuf s heap alloc =
        (r, { s with heapCmaFd := heap', next := next, acts := acts }) ∧
      heap'.isSome = (s.heapCmaFd.isSome || heap) ∧
      r.isSome = ((s.heapCmaFd.isSome || heap) && alloc) ∧
      Books old (r.toList ++ lost) { s with heapCmaFd := heap', next := next, acts := acts } := by
  obtain ⟨heap', next, acts, heq, hheap, hbooks⟩ := openHeap_spec h heap
  rw [heq] at hbooks
  rw [allocCmaDmabuf, heq]
  dsimp only
  rw [hheap]
  split
  · next hroom =>
    exact ⟨some next, heap', next + 1, acts ++ [Custody.Act.take next], rfl, hheap,
      by simp [hroom], hbooks.opened⟩
  · next hfull => exact ⟨none, heap', next, acts, rfl, hheap, by simpa using hfull, hbooks⟩

/-! ### The steps keep the books -/

/-- The element in the middle of a start. -/
structure Work (old : Bool) (lost : List Nat) (s : Src) : Prop where
  books : Books old lost s
  vdin1 : s.vdin1Fd.isSome
  fits : s.nBufs ≤ maxBuffers
  dma : ∀ j, s.nBufs ≤ j → s.dmaFd j = none
  outFits : s.outCount ≤ outPoolSize
  outs : ∀ j, s.outCount ≤ j → s.outFd j = none ∧ s.outDup j = none
  counts : ∀ c ∈ s.counts, c ≤ maxBuffers

/-- What the steps do not change. -/
structure Kept (e : Answers) (s t : Src) : Prop where
  nBufs : t.nBufs = s.nBufs
  monitor : t.signalMonitorFd = s.signalMonitorFd
  outCount : t.outCount = s.outCount
  vkInitialized : t.vkInitialized = s.vkInitialized
  heap : heapOk e t = heapOk e s

theorem Kept.refl (e : Answers) (s : Src) : Kept e s s := ⟨rfl, rfl, rfl, rfl, rfl⟩

theorem Kept.trans {u : Src} (h₁ : Kept e s t) (h₂ : Kept e t u) : Kept e s u :=
  ⟨h₂.nBufs.trans h₁.nBufs, h₂.monitor.trans h₁.monitor, h₂.outCount.trans h₁.outCount,
    h₂.vkInitialized.trans h₁.vkInitialized, h₂.heap.trans h₁.heap⟩

/-- An index below the count is inside the array. -/
theorem Work.index (h : Work old lost s) (hi : i < s.nBufs) :
    s.index i = some { s with counts := s.counts ++ [s.nBufs] } :=
  if_pos (Nat.lt_of_lt_of_le hi h.fits)

theorem counted (hn : s.nBufs ≤ maxBuffers) (hcounts : ∀ c ∈ s.counts, c ≤ maxBuffers) :
    ∀ c ∈ s.counts ++ [s.nBufs], c ≤ maxBuffers := by
  intro c hc
  rcases List.mem_append.mp hc with hold | hnew
  · exact hcounts c hold
  · rwa [List.mem_singleton.mp hnew]

/-- The loop of `vdin1_alloc_dmabufs`. -/
theorem allocFrom_spec (hs : Work old [] s) {k : Nat} (hik : i + k = s.nBufs)
    (hnone : ∀ j, i ≤ j → s.dmaFd j = none) : ∃ ok t, allocFrom e i k s = some (ok, t) ∧
      (ok = true ↔ ∀ j, i ≤ j → j < i + k → (heapOk e s && e.alloc j) = true) ∧
      Work old [] t ∧ Kept e s t := by
  induction k generalizing i s with
  | zero => exact ⟨true, s, rfl, by simp; omega, hs, .refl e s⟩
  | succ k ih =>
    obtain ⟨r, heap', next, acts, heq, hheap, hr, hbooks⟩ :=
      allocCmaDmabuf_spec hs.books e.heap (e.alloc i)
    rw [allocFrom, heq]
    cases r with
    | none =>
      refine ⟨false, _, rfl, ?_, ⟨hbooks, hs.vdin1, hs.fits, hs.dma, hs.outFits, hs.outs,
        hs.counts⟩, ⟨rfl, rfl, rfl, rfl, ?_⟩⟩
      · have hno : ¬ (heapOk e s && e.alloc i) = true := by simp [heapOk, ← hr]
        simp only [Bool.false_eq_true, false_iff]
        exact fun hall => hno (hall i (Nat.le_refl i) (by omega))
      · simp [heapOk, hheap]
    | some fd =>
      have hin : i < s.nBufs := by omega
      have hyes : (heapOk e s && e.alloc i) = true := by simpa [heapOk] using hr.symm
      have hwork : Work old [] { s with
          heapCmaFd := heap', next := next, acts := acts, counts := s.counts ++ [s.nBufs]
          dmaFd := Function.update s.dmaFd i (some fd) } := by
        refine ⟨?_, hs.vdin1, hs.fits, fun j hj => ?_, hs.outFits, hs.outs,
          counted hs.fits hs.counts⟩
        · have hput := hbooks.putDma (Nat.lt_of_lt_of_le hin hs.fits) (hnone i (Nat.le_refl i))
          exact hput.moved rfl rfl rfl (.refl _)
        · have hne : j ≠ i := (Nat.lt_of_lt_of_le hin hj).ne'
          exact (Function.update_of_ne hne _ _).trans (hs.dma j hj)
      have hrest : ∀ j, i + 1 ≤ j → Function.update s.dmaFd i (some fd) j = none := fun j hj =>
        (Function.update_of_ne (by omega) _ _).trans (hnone j (by omega))
      obtain ⟨ok, t, ht, hok, hwt, hkept⟩ := ih hwork (by dsimp only; omega) hrest
      have hstep : Kept e s { s with
          heapCmaFd := heap', next := next, acts := acts, counts := s.counts ++ [s.nBufs]
          dmaFd := Function.update s.dmaFd i (some fd) } :=
        ⟨rfl, rfl, rfl, rfl, by simp [heapOk, hheap]⟩
      refine ⟨ok, t, ?_, ?_, hwt, hstep.trans hkept⟩
      · dsimp only [Src.index]
        rw [if_pos (Nat.lt_of_lt_of_le hin hs.fits)]
        exact ht
      · rw [hok, hstep.heap]
        constructor
        · intro hall j hj hjk
          rcases Nat.eq_or_lt_of_le hj with rfl | hlt
          · exact hyes
          · exact hall j hlt (by omega)
        · intro hall j hj hjk
          exact hall j (by omega) (by omega)

/-- The loop of `vdin1_qbuf_all`. -/
theorem qbufFrom_spec (hs : Work old [] s) {k : Nat} (hik : i + k = s.nBufs) :
    ∃ ok t, qbufFrom e i k s = some (ok, t) ∧
      (ok = true ↔ ∀ j, i ≤ j → j < i + k → e.qbuf j = true) ∧ Work old [] t ∧ Kept e s t := by
  induction k generalizing i s with
  | zero => exact ⟨true, s, rfl, by simp; omega, hs, .refl e s⟩
  | succ k ih =>
    have hwork : Work old [] { s with counts := s.counts ++ [s.nBufs] } :=
      ⟨hs.books.moved rfl rfl rfl (.refl _), hs.vdin1, hs.fits, hs.dma, hs.outFits, hs.outs,
        counted hs.fits hs.counts⟩
    have hstep : Kept e s { s with counts := s.counts ++ [s.nBufs] } := ⟨rfl, rfl, rfl, rfl, rfl⟩
    rw [qbufFrom, hs.index (by omega), Option.bind_some]
    by_cases hq : e.qbuf i = true
    · have hik' : i + 1 + k = s.nBufs := by omega
      obtain ⟨ok, t, ht, hok, hwt, hkept⟩ := ih hwork hik'
      rw [if_pos hq]
      refine ⟨ok, t, ht, ?_, hwt, hstep.trans hkept⟩
      rw [hok]
      constructor
      · intro hall j hj hjk
        rcases Nat.eq_or_lt_of_le hj with rfl | hlt
        · exact hq
        · exact hall j hlt (by omega)
      · intro hall j hj hjk
        exact hall j (by omega) (by omega)
    · rw [if_neg hq]
      refine ⟨false, _, rfl, ?_, hwork, hstep⟩
      simp only [Bool.false_eq_true, false_iff]
      exact fun hall => hq (hall i (Nat.le_refl i) (by omega))

/-- The loop of `vdin1_free_dmabufs`. -/
theorem freeFrom_spec (hs : Books old lost s) {k : Nat} (hik : i + k ≤ maxBuffers)
    (hn : s.nBufs ≤ maxBuffers) (hcounts : ∀ c ∈ s.counts, c ≤ maxBuffers) :
    ∃ acts f counts, freeFrom i k s = some { s with acts := acts, dmaFd := f, counts := counts } ∧
      Books old lost { s with acts := acts, dmaFd := f, counts := counts } ∧
      (∀ j, f j = if i ≤ j ∧ j < i + k then none else s.dmaFd j) ∧
      ∀ c ∈ counts, c ≤ maxBuffers := by
  induction k generalizing i s with
  | zero =>
    refine ⟨s.acts, s.dmaFd, s.counts, rfl, hs, fun j => ?_, hcounts⟩
    rw [if_neg (by omega)]
  | succ k ih =>
    have hi : i < maxBuffers := by omega
    have hclose := (hs.takeDma hi).closeIf
    rw [closeIf_eq] at hclose
    have hbooks : Books old lost { s with
        acts := s.acts ++ (s.dmaFd i).toList.map Custody.Act.drop
        dmaFd := Function.update s.dmaFd i none
        counts := s.counts ++ [s.nBufs] } := hclose.moved rfl rfl rfl (.refl _)
    have hik' : i + 1 + k ≤ maxBuffers := by omega
    obtain ⟨acts, f, counts, heq, hb, hf, hc⟩ := ih hbooks hik' hn (counted hn hcounts)
    refine ⟨acts, f, counts, ?_, hb, fun j => ?_, hc⟩
    · rw [freeFrom, Src.index, if_pos hi, Option.bind_some, closeIf_eq]
      exact heq
    · rw [hf j]
      dsimp only
      by_cases hj : j = i
      · subst hj
        rw [if_neg (by omega), if_pos (by omega), Function.update_self]
      · rw [Function.update_of_ne hj]
        by_cases hrange : i + 1 ≤ j ∧ j < i + 1 + k
        · rw [if_pos hrange, if_pos (by omega)]
        · rw [if_neg hrange, if_neg (by omega)]

/-- The loop of `p010_pool_cleanup`. -/
theorem dropOuts_spec (hs : Books old lost s) {l : List Nat} (hl : ∀ i ∈ l, i < outPoolSize) :
    ∃ acts f g, l.foldl dropOut s = { s with acts := acts, outFd := f, outDup := g } ∧
      Books old lost { s with acts := acts, outFd := f, outDup := g } ∧
      (∀ j ∈ l, f j = none ∧ g j = none) ∧ ∀ j, j ∉ l → f j = s.outFd j ∧ g j = s.outDup j := by
  induction l generalizing s with
  | nil =>
    exact ⟨s.acts, s.outFd, s.outDup, rfl, hs, fun j hj => absurd hj List.not_mem_nil,
      fun j _ => ⟨rfl, rfl⟩⟩
  | cons i l ih =>
    have hclose := (hs.takeOut (hl i (List.mem_cons_self ..))).closeIf.closeIf
    rw [closeIf_eq, closeIf_eq] at hclose
    obtain ⟨acts, f, g, heq, hb, hnone, hsame⟩ := ih hclose fun j hj =>
      hl j (List.mem_cons_of_mem _ hj)
    refine ⟨acts, f, g, ?_, hb, fun j hj => ?_, fun j hj => ?_⟩
    · rw [List.foldl_cons, dropOut, closeIf_eq, closeIf_eq]
      exact heq
    · by_cases hin : j ∈ l
      · exact hnone j hin
      · obtain rfl : j = i := (List.mem_cons.mp hj).resolve_right hin
        have hj := hsame j hin
        simpa only [Function.update_self] using hj
    · rw [List.mem_cons, not_or] at hj
      obtain ⟨hne, hin⟩ := hj
      have hj := hsame j hin
      simpa only [Function.update_of_ne hne] using hj

/-- All entries that are counted go. -/
theorem p010PoolCleanup_spec (hs : Work old lost s) : ∃ acts,
    p010PoolCleanup s = { s with
      acts := acts, outFd := fun _ => none, outDup := fun _ => none, outCount := 0 } ∧
    Books old lost { s with
      acts := acts, outFd := fun _ => none, outDup := fun _ => none, outCount := 0 } := by
  obtain ⟨acts, f, g, heq, hb, hnone, hsame⟩ := dropOuts_spec (l := List.range s.outCount) hs.books
    fun i hi => Nat.lt_of_lt_of_le (List.mem_range.mp hi) hs.outFits
  have hall : ∀ j, f j = none ∧ g j = none := by
    intro j
    by_cases hin : j ∈ List.range s.outCount
    · exact hnone j hin
    · obtain ⟨hf, hg⟩ := hsame j hin
      rw [List.mem_range, Nat.not_lt] at hin
      exact ⟨hf.trans (hs.outs j hin).1, hg.trans (hs.outs j hin).2⟩
  obtain rfl : f = fun _ => none := funext fun j => (hall j).1
  obtain rfl : g = fun _ => none := funext fun j => (hall j).2
  refine ⟨acts, ?_, hb.moved rfl rfl rfl (.refl _)⟩
  rw [p010PoolCleanup, heq]

/-- Nothing of Path B is open; only the heap may be. -/
structure Idle (s : Src) : Prop where
  vdin1Fd : s.vdin1Fd = none
  monitor : s.signalMonitorFd = none
  nBufs : s.nBufs = 0
  dma : ∀ j, s.dmaFd j = none
  outCount : s.outCount = 0
  outs : ∀ j, s.outFd j = none ∧ s.outDup j = none
  vkInitialized : s.vkInitialized = false

theorem Idle.fds (h : Idle s) : s.fds = [] := by
  rw [Src.fds, h.vdin1Fd, filterMap_none h.dma, filterMap_none fun j => (h.outs j).1,
    filterMap_none fun j => (h.outs j).2]
  rfl

/-- `vdin1_free_dmabufs` and the `close` behind it, once the pool is gone. -/
theorem freeAndClose_spec (hb : Books old lost s) (hn : s.nBufs ≤ maxBuffers)
    (hdma : ∀ j, s.nBufs ≤ j → s.dmaFd j = none) (hcounts : ∀ c ∈ s.counts, c ≤ maxBuffers) :
    ∃ acts counts, (vdin1FreeDmabufs s).map closeVdin1 = some { s with
        acts := acts, counts := counts, dmaFd := fun _ => none, nBufs := 0, vdin1Fd := none } ∧
      Books old lost { s with
        acts := acts, counts := counts, dmaFd := fun _ => none, nBufs := 0, vdin1Fd := none } ∧
      ∀ c ∈ counts, c ≤ maxBuffers := by
  have hall : 0 + s.nBufs ≤ maxBuffers := by omega
  obtain ⟨acts, f, counts, heq, hbooks, hf, hc⟩ := freeFrom_spec hb hall hn hcounts
  obtain rfl : f = fun _ => none := by
    funext j
    rw [hf j]
    split
    · rfl
    · exact hdma j (by omega)
  have hclose := hbooks.takeVdin1.closeIf
  rw [closeIf_eq] at hclose
  refine ⟨_, counts, ?_, hclose.moved rfl rfl rfl (.refl _), hc⟩
  rw [vdin1FreeDmabufs, heq, Option.map_some, Option.map_some, closeVdin1, closeIf_eq]

/-- The label `fail` leaves nothing open but the heap and what is lost already. -/
theorem cleanUp_spec (hs : Work old lost s) (hmonitor : s.signalMonitorFd = none) :
    ∃ t, cleanUp s = some t ∧ Idle t ∧ Books old lost t ∧ ∀ c ∈ t.counts, c ≤ maxBuffers := by
  have hsame : closeMonitor s = s := by
    rw [closeMonitor, hmonitor, Src.closeIf, ← hmonitor]
  obtain ⟨acts, heq, hb⟩ := p010PoolCleanup_spec hs
  have hvk : Books old lost { s with
      acts := acts, outFd := fun _ => none, outDup := fun _ => none, outCount := 0
      vkInitialized := false } := hb.moved rfl rfl rfl (.refl _)
  obtain ⟨acts', counts, heq', hb', hc⟩ := freeAndClose_spec hvk hs.fits hs.dma hs.counts
  refine ⟨_, ?_, ?_, hb', hc⟩
  · rw [cleanUp, hsame, heq]
    exact heq'
  · exact ⟨rfl, hmonitor, rfl, fun _ => rfl, rfl, fun _ => ⟨rfl, rfl⟩, rfl⟩

/-! ### The pool -/

/-- An entry of the pool for which everything succeeds. -/
def PoolAnswer.fine (a : PoolAnswer) : Bool := a.alloc && a.dup && a.imported = .imported

/-- The duplicate of the entry is made, and the import gives up before Vulkan has taken it over. -/
def PoolAnswer.loses (a : PoolAnswer) : Bool :=
  a.alloc && a.dup && (a.imported = .noMemoryType || a.imported = .noMemory)

/-- The first entry from `i` on that fails loses its duplicate. -/
def Answers.losesFrom (e : Answers) (i k : Nat) : Prop :=
  ∃ m, m < k ∧ (∀ j, j < m → (e.pool (i + j)).fine = true) ∧ (e.pool (i + m)).loses = true

theorem losesFrom_succ (e : Answers) (i k : Nat) : e.losesFrom i (k + 1) ↔
    (e.pool i).loses = true ∨ (e.pool i).fine = true ∧ e.losesFrom (i + 1) k := by
  have hshift : ∀ j, i + 1 + j = i + (j + 1) := by omega
  constructor
  · rintro ⟨m, hm, hfine, hloses⟩
    cases m with
    | zero => exact .inl hloses
    | succ m =>
      refine .inr ⟨hfine 0 (Nat.succ_pos m), m, by omega, fun j hj => ?_, ?_⟩
      · rw [hshift]
        exact hfine (j + 1) (by omega)
      · rw [hshift]
        exact hloses
  · rintro (hloses | ⟨hfine, m, hm, hall, hloses⟩)
    · exact ⟨0, Nat.succ_pos k, fun j hj => absurd hj (Nat.not_lt_zero j), hloses⟩
    · refine ⟨m + 1, by omega, fun j hj => ?_, ?_⟩
      · cases j with
        | zero => exact hfine
        | succ j =>
          rw [← hshift]
          exact hall j (by omega)
      · rw [← hshift]
        exact hloses

/-- The duplicate is at no place after the import, or closed. -/
theorem vdin1VkImportDmabuf_spec (hs : Books old lost s) (a : Import) : ∃ acts,
    vdin1VkImportDmabuf s.opened s.next a =
      (decide (a = .imported), { s with next := s.next + 1, acts := acts }) ∧
    Books old ((if a = .noBuffer ∨ a = .notBound then [] else [s.next]) ++ lost)
      { s with next := s.next + 1, acts := acts } := by
  cases a with
  | noBuffer => exact ⟨_, rfl, hs.opened.close⟩
  | noMemoryType => exact ⟨_, rfl, hs.opened⟩
  | noMemory => exact ⟨_, rfl, hs.opened⟩
  | notBound => exact ⟨_, rfl, hs.opened.close⟩
  | imported => exact ⟨_, rfl, hs.opened⟩

/-- The loop of `p010_pool_init`, with the heap open. -/
theorem poolFrom_spec (hs : Work old [] s) {k : Nat} (hi : s.outCount = i)
    (hik : i + k = outPoolSize) (hheap : heapOk e s = true) :
    ∃ ok t lost, poolFrom e i k s = (ok, t) ∧ Work old lost t ∧
      t.signalMonitorFd = s.signalMonitorFd ∧ (lost ≠ [] ↔ e.losesFrom i k) ∧
      (ok = true → lost = []) := by
  induction k generalizing i s with
  | zero =>
    refine ⟨true, s, [], rfl, hs, rfl, ?_, fun _ => rfl⟩
    simp [Answers.losesFrom]
  | succ k ih =>
    have hin : i < outPoolSize := by omega
    obtain ⟨r, heap', next, acts, heq, hheap', hr, hbooks⟩ :=
      allocCmaDmabuf_spec hs.books e.heap (e.pool i).alloc
    rw [← heapOk, hheap, Bool.true_and] at hr
    rw [poolFrom, heq]
    cases r with
    | none =>
      refine ⟨false, _, [], rfl, ⟨hbooks, hs.vdin1, hs.fits, hs.dma, hs.outFits, hs.outs,
        hs.counts⟩, rfl, ?_, fun _ => rfl⟩
      rw [losesFrom_succ]
      simp [PoolAnswer.loses, PoolAnswer.fine, ← hr]
    | some fd =>
      have halloc : (e.pool i).alloc = true := hr.symm
      have hadd : Work old [] (Src.addOut
          { s with heapCmaFd := heap', next := next, acts := acts } i fd) := by
        refine ⟨hbooks.putOut hin (hs.outs i hi.le).1, hs.vdin1, hs.fits, hs.dma, hin,
          fun j hj => ?_, hs.counts⟩
        have hne : j ≠ i := Nat.ne_of_gt hj
        have hout := hs.outs j (hi ▸ (Nat.le_of_lt hj))
        exact ⟨(Function.update_of_ne hne _ _).trans hout.1, hout.2⟩
      have hdupNone : s.outDup i = none := (hs.outs i hi.le).2
      dsimp only
      by_cases hdup : (e.pool i).dup = true
      · obtain ⟨acts', heq', hbooks'⟩ :=
          vdin1VkImportDmabuf_spec hadd.books (e.pool i).imported
        rw [if_pos hdup, heq', losesFrom_succ]
        by_cases himport : (e.pool i).imported = .imported
        · simp only [himport, decide_true]
          simp only [himport, reduceCtorEq, or_self, if_false, List.singleton_append] at hbooks'
          have hwork : Work old [] { Src.addOut
              { s with heapCmaFd := heap', next := next, acts := acts } i fd with
              next := next + 1, acts := acts'
              outDup := Function.update s.outDup i (some next) } := by
            refine ⟨hbooks'.putDup hin hdupNone, hadd.vdin1, hadd.fits, hadd.dma, hadd.outFits,
              fun j hj => ?_, hadd.counts⟩
            have hne : j ≠ i := Nat.ne_of_gt hj
            have hout := hadd.outs j hj
            exact ⟨hout.1, (Function.update_of_ne hne _ _).trans hout.2⟩
          have hik' : i + 1 + k = outPoolSize := by omega
          obtain ⟨ok, t, lost, ht, hwt, hmon, hlost, hok⟩ := ih hwork rfl hik' (by
            simp only [heapOk, Src.addOut, hheap']
            simpa [heapOk] using hheap)
          refine ⟨ok, t, lost, ht, hwt, hmon, ?_, hok⟩
          simp [hlost, PoolAnswer.loses, PoolAnswer.fine, himport, halloc, hdup, Src.addOut]
        · simp only [himport, decide_false]
          refine ⟨false, _, _, rfl, ⟨hbooks', hadd.vdin1, hadd.fits, hadd.dma, hadd.outFits,
            hadd.outs, hadd.counts⟩, rfl, ?_, by simp⟩
          -- Vulkan closes the duplicate in two of the four cases
          cases hcase : (e.pool i).imported with
          | imported => exact absurd hcase himport
          | noBuffer => simp [PoolAnswer.loses, PoolAnswer.fine, hcase]
          | notBound => simp [PoolAnswer.loses, PoolAnswer.fine, hcase]
          | noMemoryType => simp [PoolAnswer.loses, PoolAnswer.fine, hcase, halloc, hdup]
          | noMemory => simp [PoolAnswer.loses, PoolAnswer.fine, hcase, halloc, hdup]
      · rw [if_neg hdup]
        refine ⟨false, _, [], rfl, hadd, rfl, ?_, fun _ => rfl⟩
        rw [losesFrom_succ]
        simp [PoolAnswer.loses, PoolAnswer.fine, hdup]

end Streambox.Element.PathBStart
