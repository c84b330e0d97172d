import Streambox.Element.Lifecycle
import Streambox.Element.PathBStart

/-! streamboxsrc: is a start of Path B all or nothing?

    The books of the previous module say what a start has opened and not closed at every step. Here
    they are read at its end. A failed start leaves nothing but the heap if the driver grants no
    more buffers than `vdin1_bufs` has entries, and if no import gives up with a duplicate in hand;
    and the element stays fit for this through every history of starts and stops in which each stop
    finds the source that was started. -/

namespace Streambox.Element.PathBStart
open Streambox.Lib

variable {old : Bool} {lost lost' : List Nat} {s t : Src} {i n fd : Nat} {e : Answers}

/-! ### A start that is granted no more than the array holds -/

/-- What the driver answers to the request for buffers. -/
def Answers.granted (e : Answers) (s : Src) : Option Nat := e.reqbufs (min s.numBuffers maxBuffers)

/-- With `n` buffers the start comes as far as the P010 pool. -/
def Answers.reachesPool (e : Answers) (s : Src) (n : Nat) : Prop :=
  (∀ j, j < n → (heapOk e s && e.alloc j) = true) ∧ (∀ j, j < n → e.qbuf j = true) ∧
    e.streamon = true ∧ e.vkInit = true

/-- A stage in the middle of a start: it ends, and it has lost something exactly if `loses`. -/
def Ends (old : Bool) (loses : Prop) (r : Option (Bool × Src)) : Prop :=
  ∃ ok t lost, r = some (ok, t) ∧ Work old lost t ∧ t.signalMonitorFd = none ∧
    (lost ≠ [] ↔ loses) ∧ (ok = true → lost = [])

/-- A stage that has lost nothing. -/
theorem Ends.of_work {ok : Bool} (h : Work old [] t) (hmonitor : t.signalMonitorFd = none)
    {loses : Prop} (hno : ¬ loses) : Ends old loses (some (ok, t)) :=
  ⟨ok, t, [], rfl, h, hmonitor, by simp [hno], fun _ => rfl⟩

theorem Ends.congr {p q : Prop} {r : Option (Bool × Src)} (h : Ends old p r) (hpq : p ↔ q) :
    Ends old q r := by
  obtain ⟨ok, t, lost, heq, hw, hmonitor, hlost, hok⟩ := h
  exact ⟨ok, t, lost, heq, hw, hmonitor, hlost.trans hpq, hok⟩

/-- The stages are taken one after the other. -/
theorem andThen_ends {f g : Stage} {ok : Bool} {p q : Prop} (h : f s = some (ok, t))
    (hwork : Work old [] t) (hmonitor : t.signalMonitorFd = none) (hp : ok = true ↔ p)
    (hg : p → Ends old q (g t)) : Ends old (p ∧ q) (f.andThen g s) := by
  rw [Stage.andThen, h, Option.bind_some]
  cases ok with
  | true =>
    have hp' : p := hp.mp rfl
    exact (hg hp').congr (by simp [hp'])
  | false => exact Ends.of_work hwork hmonitor fun hpq => absurd (hp.mpr hpq.1) (by simp)

/-- The pool, once the heap is open. -/
theorem p010PoolInit_ends (hs : Work old [] s) (hmonitor : s.signalMonitorFd = none)
    (hout : s.outCount = 0) (hheap : heapOk e s = true) :
    Ends old (e.losesFrom 0 outPoolSize) (p010PoolInit e s) := by
  obtain ⟨ok, t, lost, heq, hw, hmon, hlost, hok⟩ := poolFrom_spec hs hout (Nat.zero_add _) hheap
  refine ⟨ok, t, lost, ?_, hw, hmon.trans hmonitor, hlost, hok⟩
  have hsame : { s with outCount := 0 } = s := by rw [← hout]
  rw [p010PoolInit, hsame, heq]

theorem vkAndPool_ends (hs : Work old [] s) (hmonitor : s.signalMonitorFd = none)
    (hout : s.outCount = 0) (hvk : s.vkInitialized = false) (hheap : heapOk e s = true)
    (tenBit : Bool) :
    Ends old (tenBit = true ∧ e.vkInit = true ∧ e.losesFrom 0 outPoolSize)
      ((if tenBit then (vdin1VkInit e).andThen (p010PoolInit e) else answered true) s) := by
  cases tenBit with
  | false => exact Ends.of_work hs hmonitor (by simp)
  | true =>
    have hinit : vdin1VkInit e s = some (e.vkInit, { s with vkInitialized := e.vkInit }) := by
      have hsame : { s with vkInitialized := false } = s := by rw [← hvk]
      cases he : e.vkInit with
      | true => simp [vdin1VkInit, hvk, he]
      | false => simp [vdin1VkInit, hvk, he, hsame]
    have hwork : Work old [] { s with vkInitialized := e.vkInit } :=
      ⟨hs.books.moved rfl rfl rfl (.refl _), hs.vdin1, hs.fits, hs.dma, hs.outFits, hs.outs,
        hs.counts⟩
    have hpool := andThen_ends hinit hwork hmonitor Iff.rfl fun _ =>
      p010PoolInit_ends hwork hmonitor hout hheap
    exact hpool.congr (by simp)

/-- From the allocation of the DMA-bufs on. -/
theorem fill_ends (hs : Work old [] s) (hn : 0 < s.nBufs) (hnone : ∀ j, s.dmaFd j = none)
    (hmonitor : s.signalMonitorFd = none) (hout : s.outCount = 0) (hvk : s.vkInitialized = false)
    (tenBit : Bool) :
    Ends old (e.reachesPool s s.nBufs ∧ tenBit = true ∧ e.losesFrom 0 outPoolSize)
      ((vdin1AllocDmabufs e).andThen ((vdin1QbufAll e).andThen ((answered e.streamon).andThen
        (if tenBit then (vdin1VkInit e).andThen (p010PoolInit e) else answered true))) s) := by
  obtain ⟨ok, t, heq, hok, hw, hkept⟩ :=
    allocFrom_spec (e := e) hs (Nat.zero_add _) fun j _ => hnone j
  obtain ⟨ok', u, heq', hok', hw', hkept'⟩ := qbufFrom_spec (e := e) hw (Nat.zero_add _)
  have hall := hkept.trans hkept'
  have hmon : u.signalMonitorFd = none := hall.monitor.trans hmonitor
  have hfill := andThen_ends (g := (vdin1QbufAll e).andThen ((answered e.streamon).andThen
      (if tenBit then (vdin1VkInit e).andThen (p010PoolInit e) else answered true))) heq hw
    (hkept.monitor.trans hmonitor) hok fun hgot =>
      andThen_ends heq' hw' hmon hok' fun _ => andThen_ends rfl hw' hmon Iff.rfl fun _ =>
        vkAndPool_ends hw' hmon (hall.outCount.trans hout) (hall.vkInitialized.trans hvk)
          (by
            have hfirst := hgot 0 (Nat.le_refl 0) (by omega)
            rw [Bool.and_eq_true] at hfirst
            exact hall.heap.trans hfirst.1) tenBit
  refine hfill.congr ?_
  simp only [Answers.reachesPool, hkept.nBufs, Nat.zero_add, Nat.zero_le, true_implies]
  tauto

theorem Work.none_left (h : Work old lost s) (hn : s.nBufs = 0) : ∀ j, s.dmaFd j = none :=
  fun j => h.dma j (hn ▸ Nat.zero_le j)

/-- A start with `n` buffers loses a duplicate in the pool. -/
def Answers.losesPool (e : Answers) (s : Src) (tenBit : Bool) : Prop :=
  ∃ n, e.granted s = some n ∧ 3 ≤ n ∧ e.reachesPool s n ∧ tenBit = true ∧
    e.losesFrom 0 outPoolSize

theorem bringUp_ends (hs : Work old [] s) (hn : s.nBufs = 0) (hmonitor : s.signalMonitorFd = none)
    (hout : s.outCount = 0) (hvk : s.vkInitialized = false) (tenBit : Bool)
    (hfits : ∀ n, e.granted s = some n → n ≤ maxBuffers) :
    Ends old (e.losesPool s tenBit) (bringUp e tenBit s) := by
  rw [bringUp, Stage.andThen, vdin1Reqbufs, ← Answers.granted]
  cases hgrant : e.granted s with
  | none =>
    refine Ends.of_work hs hmonitor ?_
    rintro ⟨n, hn, -⟩
    simp [hgrant] at hn
  | some n =>
    dsimp only
    by_cases hfew : n < 3
    · rw [if_pos hfew]
      refine Ends.of_work hs hmonitor ?_
      rintro ⟨m, hm, hm3, -⟩
      rw [hgrant, Option.some_inj] at hm
      omega
    · rw [if_neg hfew, Option.bind_some, if_pos rfl]
      have hnone := hs.none_left hn
      have hwork : Work old [] { s with nBufs := n } :=
        ⟨hs.books.moved rfl rfl rfl (.refl _), hs.vdin1, hfits n hgrant, fun j _ => hnone j,
          hs.outFits, hs.outs, hs.counts⟩
      have hpos : 0 < n := by omega
      refine (fill_ends hwork hpos hnone hmonitor hout hvk tenBit).congr ?_
      constructor
      · rintro ⟨hreach, hloses⟩
        exact ⟨n, hgrant, by omega, hreach, hloses⟩
      · rintro ⟨m, hm, -, hreach, hloses⟩
        obtain rfl : n = m := Option.some_inj.mp (hgrant.symm.trans hm)
        exact ⟨hreach, hloses⟩

/-! ### A start that is granted more -/

theorem allocCmaDmabuf_nBufs (s : Src) (heap alloc : Bool) :
    (allocCmaDmabuf s heap alloc).2.nBufs = s.nBufs := by
  have hopen : (openHeap s heap).nBufs = s.nBufs := by
    rw [openHeap]
    split <;> rfl
  rw [allocCmaDmabuf]
  split
  · exact hopen
  · exact hopen

/-- The loop does not come to its end inside the array. -/
theorem allocFrom_overrun {k : Nat} {ok : Bool} (hi : i ≤ maxBuffers) (hik : maxBuffers < i + k)
    (h : allocFrom e i k s = some (ok, t)) : ok = false ∧ t.nBufs = s.nBufs := by
  induction k generalizing i s with
  | zero => exact absurd hik (by omega)
  | succ k ih =>
    have hnBufs := allocCmaDmabuf_nBufs s e.heap (e.alloc i)
    rw [allocFrom] at h
    obtain ⟨⟨r, u⟩, hres⟩ : ∃ p, allocCmaDmabuf s e.heap (e.alloc i) = p := ⟨_, rfl⟩
    rw [hres] at h hnBufs
    cases r with
    | none =>
      cases h
      exact ⟨rfl, hnBufs⟩
    | some fd =>
      dsimp only [Src.index] at h
      by_cases hin : i < maxBuffers
      · rw [if_pos hin, Option.bind_some] at h
        obtain ⟨hok, ht⟩ := ih hin (by omega) h
        exact ⟨hok, ht.trans hnBufs⟩
      · rw [if_neg hin] at h
        cases h

theorem freeFrom_overrun {k : Nat} (hi : i ≤ maxBuffers) (hik : maxBuffers < i + k) (s : Src) :
    freeFrom i k s = none := by
  induction k generalizing i s with
  | zero => exact absurd hik (by omega)
  | succ k ih =>
    rw [freeFrom, Src.index]
    by_cases hin : i < maxBuffers
    · rw [if_pos hin, Option.bind_some]
      exact ih hin (by omega) _
    · rw [if_neg hin, Option.bind_none]

theorem dropOuts_nBufs (l : List Nat) (s : Src) : (l.foldl dropOut s).nBufs = s.nBufs := by
  induction l generalizing s with
  | nil => rfl
  | cons i l ih =>
    rw [List.foldl_cons, ih, dropOut, closeIf_eq, closeIf_eq]

/-- Nor does the clean-up. -/
theorem cleanUp_overrun (hn : maxBuffers < s.nBufs) : cleanUp s = none := by
  have hnBufs : (vdin1VkCleanup (p010PoolCleanup (closeMonitor s))).nBufs = s.nBufs := by
    rw [vdin1VkCleanup, p010PoolCleanup]
    dsimp only
    rw [dropOuts_nBufs, closeMonitor, closeIf_eq]
  rw [cleanUp, vdin1FreeDmabufs, hnBufs, freeFrom_overrun (Nat.zero_le _) (by omega)]
  rfl

/-- What comes behind the loop makes no difference. -/
theorem bringUp_overrun {n : Nat} (hgrant : e.granted s = some n) (hn : maxBuffers < n)
    {tenBit : Bool} {r : Bool × Src} (h : bringUp e tenBit s = some r) :
    r.1 = false ∧ cleanUp r.2 = none := by
  have hmany : ¬ n < 3 := by
    rw [maxBuffers] at hn
    omega
  rw [bringUp, Stage.andThen, vdin1Reqbufs, ← Answers.granted, hgrant] at h
  dsimp only at h
  rw [if_neg hmany, Option.bind_some, if_pos rfl, Stage.andThen] at h
  obtain ⟨⟨ok, t⟩, halloc, hrest⟩ := Option.bind_eq_some_iff.mp h
  obtain ⟨rfl, ht⟩ := allocFrom_overrun (Nat.zero_le _) (by dsimp only; omega) halloc
  cases hrest
  exact ⟨rfl, cleanUp_overrun (by rw [ht]; exact hn)⟩

/-! ### All or nothing -/

/-- The start comes as far as the request for buffers. -/
def Answers.ready (e : Answers) : Bool :=
  e.openVdin1 && e.querycap && e.setInput && e.setFormat.isSome

/-- If the driver is asked for buffers, it grants no more than `vdin1_bufs` has entries. -/
def Answers.fits (e : Answers) (s : Src) : Prop :=
  e.ready = true → ∀ n, e.granted s = some n → n ≤ maxBuffers

/-- The start comes as far as an entry of the P010 pool whose import gives up with the duplicate in
    hand. -/
def Answers.loses (e : Answers) (s : Src) : Prop :=
  e.ready = true ∧ e.losesPool s (e.setFormat.getD false)

/-- What a start that fails leaves: it has closed nothing but what it had opened itself and what was
    still open, and nothing of it is open any more but the heap, which stays with the element. -/
structure CleanFailure (s t : Src) : Prop where
  lawful : Custody.Lawful ∅ t.acts
  closed : ∀ fd ∈ Custody.hand ∅ t.acts, s.heapCmaFd = none ∧ t.heapCmaFd = some fd
  vdin1Fd : t.vdin1Fd = none
  nBufs : t.nBufs = 0

/-- The start stays inside `vdin1_bufs`, and if it fails it leaves nothing behind. -/
def AllOrNothing (e : Answers) (s : Src) : Prop :=
  ∃ ok t, startPathB e s = some (ok, t) ∧ (∀ c ∈ t.counts, c ≤ maxBuffers) ∧
    (ok = false → CleanFailure s t)

/-- The books tell whether a failure is clean. -/
theorem cleanFailure_iff (hidle : Idle t) (hbooks : Books s.heapCmaFd.isSome lost t) :
    CleanFailure s t ↔ lost = [] := by
  have hin : ∀ fd, fd ∈ Custody.hand ∅ t.acts ↔ fd ∈ t.newHeap s.heapCmaFd.isSome ++ lost := by
    intro fd
    rw [hbooks.accounted.hand, hidle.fds, List.nil_append]
  have hnodup := hbooks.accounted.nodup
  rw [hidle.fds, List.nil_append] at hnodup
  constructor
  · intro hclean
    by_contra hlost
    obtain ⟨fd, hfd⟩ := List.exists_mem_of_ne_nil lost hlost
    obtain ⟨hnone, hheap⟩ := hclean.closed fd ((hin fd).mpr (List.mem_append_right _ hfd))
    -- it would be the heap as well, but everything is held once
    have hnew : fd ∈ t.newHeap s.heapCmaFd.isSome := by simp [Src.newHeap, hnone, hheap]
    exact (List.nodup_append.mp hnodup).2.2 fd hnew fd hfd rfl
  · rintro rfl
    refine ⟨hbooks.accounted.lawful, fun fd hfd => ?_, hidle.vdin1Fd, hidle.nBufs⟩
    rw [hin, List.append_nil, Src.newHeap] at hfd
    cases hheap : s.heapCmaFd with
    | some old => simp [hheap] at hfd
    | none => exact ⟨rfl, by simpa [hheap, eq_comm] using hfd⟩

/-- Path B is running. -/
def Session (s : Src) : Prop := ∃ old lost, Work old lost s

theorem openMonitor_session (h : Work old [] s) : Session (openMonitor e s) ∧
    ∀ c ∈ (openMonitor e s).counts, c ≤ maxBuffers := by
  rw [openMonitor]
  split
  · exact ⟨⟨old, [], h.books.moved rfl rfl rfl (.refl _), h.vdin1, h.fits, h.dma, h.outFits, h.outs,
      h.counts⟩, h.counts⟩
  · split
    · exact ⟨⟨old, [], h.books.opened.close.moved rfl rfl rfl (.refl _), h.vdin1, h.fits, h.dma,
        h.outFits, h.outs, h.counts⟩, h.counts⟩
    · exact ⟨⟨old, [s.next], h.books.opened.moved rfl rfl rfl (.refl _), h.vdin1, h.fits, h.dma,
        h.outFits, h.outs, h.counts⟩, h.counts⟩

/-- The journal begins anew. -/
def Src.anew (s : Src) : Src := { s with acts := [], counts := [] }

theorem anew_idle (h : Idle s) : Idle s.anew :=
  ⟨h.vdin1Fd, h.monitor, h.nBufs, h.dma, h.outCount, h.outs, h.vkInitialized⟩

theorem anew_books (h : Idle s) : Books s.heapCmaFd.isSome [] s.anew := by
  have hheap : s.anew.newHeap s.heapCmaFd.isSome = [] := by
    rw [Src.newHeap, Src.anew]
    cases s.heapCmaFd with
    | none => rfl
    | some fd => rfl
  refine ⟨id, ?_, ?_⟩
  · rw [hheap, (anew_idle h).fds]
    exact ⟨trivial, List.nodup_nil, fun r => by simp [Src.anew, Custody.hand]⟩
  · rw [hheap, (anew_idle h).fds]
    exact fun fd hfd => absurd hfd List.not_mem_nil

/-- The element with vdin1 opened. -/
def Src.withVdin1 (s : Src) : Src := { s.anew.opened with vdin1Fd := some s.next }

theorem withVdin1_work (h : Idle s) : Work s.heapCmaFd.isSome [] s.withVdin1 := by
  refine ⟨(anew_books h).opened.putVdin1 h.vdin1Fd, rfl, ?_, fun j _ => h.dma j, ?_,
    fun j _ => h.outs j, fun c hc => absurd hc List.not_mem_nil⟩
  · exact h.nBufs.trans_le (Nat.zero_le _)
  · exact h.outCount.trans_le (Nat.zero_le _)

/-- One of the first exits, which close vdin1 themselves. -/
theorem closeVdin1_spec (h : Idle s) : Idle (closeVdin1 s.withVdin1) ∧
    Books s.heapCmaFd.isSome [] (closeVdin1 s.withVdin1) ∧
    (closeVdin1 s.withVdin1).counts = [] := by
  have hclose := (withVdin1_work h).books.takeVdin1.closeIf
  exact ⟨⟨rfl, h.monitor, h.nBufs, h.dma, h.outCount, h.outs, h.vkInitialized⟩,
    hclose.moved rfl rfl rfl (.refl _), rfl⟩

/-- How a start ends that is granted no more than fits. -/
structure Started (e : Answers) (s : Src) (ok : Bool) (t : Src) (lost : List Nat) : Prop where
  counts : ∀ c ∈ t.counts, c ≤ maxBuffers
  failed : ok = false → Idle t ∧ Books s.heapCmaFd.isSome lost t
  running : ok = true → Session t ∧ lost = []
  lost : lost ≠ [] ↔ e.loses s

theorem early_started (h : Idle s) (hearly : e.ready = false) :
    Started e s false (closeVdin1 s.withVdin1) [] := by
  obtain ⟨hidle, hbooks, hcounts⟩ := closeVdin1_spec h
  refine ⟨by simp [hcounts], fun _ => ⟨hidle, hbooks⟩, by simp, ?_⟩
  simp [Answers.loses, hearly]

theorem startPathB_started (hs : Idle s) (hfits : e.fits s) :
    ∃ ok t lost, startPathB e s = some (ok, t) ∧ Started e s ok t lost := by
  have hvdin1 : { Src.opened { s with acts := [], counts := [] } with
      vdin1Fd := some s.next } = s.withVdin1 := rfl
  rw [startPathB]
  dsimp only
  rw [hvdin1]
  split
  · next hno =>
    have hsame : { s with acts := [], counts := [], vdin1Fd := none } = s.anew := by
      rw [← hs.vdin1Fd, Src.anew]
    rw [hsame]
    refine ⟨false, s.anew, [], rfl, ⟨by simp [Src.anew], ?_, by simp, ?_⟩⟩
    · exact fun _ => ⟨anew_idle hs, anew_books hs⟩
    · simp_all [Answers.loses, Answers.ready]
  · next hopen =>
    split
    · next hno => exact ⟨_, _, _, rfl, early_started hs (by simp_all [Answers.ready])⟩
    · next hcap =>
      split
      · next hno => exact ⟨_, _, _, rfl, early_started hs (by simp_all [Answers.ready])⟩
      · next hinput =>
        split
        · next hno => exact ⟨_, _, _, rfl, early_started hs (by simp_all [Answers.ready])⟩
        · next tenBit hformat =>
          have hready : e.ready = true := by simp_all [Answers.ready]
          have hends := bringUp_ends (withVdin1_work hs) hs.nBufs hs.monitor hs.outCount
            hs.vkInitialized tenBit (hfits hready)
          obtain ⟨ok, t, lost, heq, hw, hmonitor, hlost, hok⟩ := hends
          have hloses : lost ≠ [] ↔ e.loses s := by
            rw [hlost, Answers.loses, hformat]
            exact (and_iff_right hready).symm
          rw [heq, Option.bind_some]
          cases ok with
          | true =>
            obtain rfl := hok rfl
            obtain ⟨hsession, hcounts⟩ := openMonitor_session (e := e) hw
            exact ⟨_, _, [], rfl, hcounts, by simp, fun _ => ⟨hsession, rfl⟩, hloses⟩
          | false =>
            obtain ⟨u, hu, hidle, hbooks, hcounts⟩ := cleanUp_spec hw hmonitor
            refine ⟨false, u, lost, ?_, hcounts, fun _ => ⟨hidle, hbooks⟩, by simp, hloses⟩
            simp [hu]

theorem startPathB_overrun {n : Nat} (hready : e.ready = true) (hgrant : e.granted s = some n)
    (hn : maxBuffers < n) : startPathB e s = none := by
  obtain ⟨tenBit, hformat⟩ : ∃ tenBit, e.setFormat = some tenBit :=
    Option.isSome_iff_exists.mp (by simp_all [Answers.ready])
  simp only [Answers.ready, Bool.and_eq_true] at hready
  rw [startPathB]
  simp only [hready.1.1.1, hready.1.1.2, hready.1.2, hformat, Bool.not_true, Bool.false_eq_true,
    if_false]
  refine Option.bind_eq_none_iff.mpr fun r hr => ?_
  have hgrant' : e.granted s.withVdin1 = some n := hgrant
  obtain ⟨hok, hcleanUp⟩ := bringUp_overrun hgrant' hn hr
  simp [hok, hcleanUp]

/-- Where the element is idle, a start is all or nothing exactly if the grant fits the array and no
    duplicate is lost. -/
theorem allOrNothing_iff (hs : Idle s) : AllOrNothing e s ↔ e.fits s ∧ ¬ e.loses s := by
  constructor
  · rintro ⟨ok, t, heq, -, hclean⟩
    have hfits : e.fits s := by
      intro hready n hgrant
      by_contra hn
      rw [startPathB_overrun hready hgrant (Nat.lt_of_not_le hn)] at heq
      cases heq
    refine ⟨hfits, fun hloses => ?_⟩
    obtain ⟨ok', t', lost, heq', hstart⟩ := startPathB_started hs hfits
    rw [heq, Option.some_inj, Prod.mk.injEq] at heq'
    obtain ⟨rfl, rfl⟩ := heq'
    have hlost := hstart.lost.mpr hloses
    cases ok with
    | true => exact hlost (hstart.running rfl).2
    | false =>
      obtain ⟨hidle, hbooks⟩ := hstart.failed rfl
      exact hlost ((cleanFailure_iff hidle hbooks).mp (hclean rfl))
  · rintro ⟨hfits, hkeeps⟩
    obtain ⟨ok, t, lost, heq, hstart⟩ := startPathB_started hs hfits
    refine ⟨ok, t, heq, hstart.counts, fun hok => ?_⟩
    obtain ⟨hidle, hbooks⟩ := hstart.failed hok
    refine (cleanFailure_iff hidle hbooks).mpr ?_
    by_contra hlost
    exact hkeeps (hstart.lost.mp hlost)

/-- What the element's lifecycle knows of Path B. -/
structure Shows (el : GstStreamboxSrc) (s : Src) : Prop where
  vdin1Open : el.vdin1Open = s.vdin1Fd.isSome
  nBufs : el.pipe.nBufs = s.nBufs
  outCount : el.pipe.outCount = s.outCount

/-- The lifecycle takes a start that fails for one that changes nothing, and so it is. -/
theorem failed_start_shows {el : GstStreamboxSrc} (hs : Idle s) (hfits : e.fits s)
    (hshows : Shows el s) (heq : startPathB e s = some (false, t)) : Shows (Element.startPathB el none) t := by
  obtain ⟨ok, u, lost, hu, hstarted⟩ := startPathB_started hs hfits
  rw [heq, Option.some_inj, Prod.mk.injEq] at hu
  obtain ⟨rfl, rfl⟩ := hu
  obtain ⟨hidle, -⟩ := hstarted.failed rfl
  constructor
  · exact hshows.vdin1Open.trans (by rw [hs.vdin1Fd, hidle.vdin1Fd])
  · exact hshows.nBufs.trans (hs.nBufs.trans hidle.nBufs.symm)
  · exact hshows.outCount.trans (hs.outCount.trans hidle.outCount.symm)

/-! ### Histories -/

theorem Work.relabel (h : Work old lost s) (m : SourceMode) (n : Nat) (x : Option SourceMode) :
    Work old lost { s with sourceMode := m, numBuffers := n, session := x } :=
  ⟨h.books.moved rfl rfl rfl (.refl _), h.vdin1, h.fits, h.dma, h.outFits, h.outs, h.counts⟩

theorem Idle.relabel (h : Idle s) (m : SourceMode) (n : Nat) (x : Option SourceMode) :
    Idle { s with sourceMode := m, numBuffers := n, session := x } :=
  ⟨h.vdin1Fd, h.monitor, h.nBufs, h.dma, h.outCount, h.outs, h.vkInitialized⟩

/-- `stop_path_b` closes what the session has. -/
theorem stopPathB_idle (h : Session s) : ∃ t, stopPathB s = some t ∧ Idle t := by
  obtain ⟨old, lost, hw⟩ := h
  obtain ⟨acts, heq, hb⟩ := p010PoolCleanup_spec hw
  have hvk : Books old lost { s with
      acts := acts, outFd := fun _ => none, outDup := fun _ => none, outCount := 0
      vkInitialized := false } := hb.moved rfl rfl rfl (.refl _)
  obtain ⟨acts', counts, heq', -, -⟩ := freeAndClose_spec hvk hw.fits hw.dma hw.counts
  rw [stopPathB, heq]
  simp only [vdin1VkCleanup, hw.vdin1, if_true]
  rw [heq', Option.map_some, closeIf_eq, closeMonitor, closeIf_eq]
  exact ⟨_, rfl, rfl, rfl, rfl, fun _ => rfl, rfl, fun _ => ⟨rfl, rfl⟩, rfl⟩

/-- Path B is running or idle, as `session` says. -/
def Settled (s : Src) : Prop := if s.session = some .vdin1 then Session s else Idle s

/-- A start is granted no more than fits, and a stop finds the source that was started. -/
def Careful (s : Src) : Op → Prop
  | .startB e => s.session = none → e.fits s
  | .stop => ∀ m, s.session = some m → m = s.sourceMode
  | _ => True

theorem Settled.idle (h : Settled s) (hsession : s.session ≠ some .vdin1) : Idle s := by
  rwa [Settled, if_neg hsession] at h

theorem Settled.of_idle {x : Option SourceMode} (h : Idle s) (hx : x ≠ some .vdin1) :
    Settled { s with session := x } := by
  rw [Settled, if_neg hx]
  exact h.relabel s.sourceMode s.numBuffers x

theorem Settled.relabel (h : Settled s) (m : SourceMode) (n : Nat) :
    Settled { s with sourceMode := m, numBuffers := n } := by
  rw [Settled] at h ⊢
  split at h
  · next hsession =>
    obtain ⟨old, lost, hw⟩ := h
    rw [if_pos hsession]
    exact ⟨old, lost, hw.relabel m n s.session⟩
  · next hsession =>
    rw [if_neg hsession]
    exact h.relabel m n s.session

theorem startB_settled (h : Settled s) (hcareful : Careful s (.startB e)) :
    ∃ t, step s (.startB e) = some t ∧ Settled t := by
  rw [step]
  split
  · next hstart =>
    rw [Bool.and_eq_true, Option.isNone_iff_eq_none] at hstart
    have hidle := h.idle (by simp [hstart.1])
    obtain ⟨ok, t, lost, heq, hstarted⟩ := startPathB_started hidle (hcareful hstart.1)
    rw [heq]
    refine ⟨_, rfl, ?_⟩
    cases ok with
    | true =>
      obtain ⟨old, lost', hw⟩ := (hstarted.running rfl).1
      exact ⟨old, lost', hw.relabel t.sourceMode t.numBuffers _⟩
    | false => exact Settled.of_idle (hstarted.failed rfl).1 (by simp)
  · exact ⟨s, rfl, h⟩

theorem stop_settled (h : Settled s) (hcareful : Careful s .stop) :
    ∃ t, step s .stop = some t ∧ Settled t := by
  rw [step]
  split
  · exact ⟨s, rfl, h⟩
  · next hrunning =>
    rw [Option.isNone_iff_eq_none] at hrunning
    obtain ⟨m, hm⟩ := Option.ne_none_iff_exists'.mp hrunning
    obtain rfl : m = s.sourceMode := hcareful m hm
    split
    · next hmode =>
      have hidle : Idle s := h.idle (by simp [hm, hmode])
      exact ⟨_, rfl, Settled.of_idle hidle (by simp)⟩
    · next hmode =>
      have hsession : Session s := by rwa [Settled, hm, hmode, if_pos rfl] at h
      obtain ⟨t, ht, hidle⟩ := stopPathB_idle hsession
      rw [ht]
      exact ⟨_, rfl, Settled.of_idle hidle (by simp)⟩

/-- A careful step is possible and leaves the element settled. -/
theorem step_settled (h : Settled s) {op : Op} (hcareful : Careful s op) :
    ∃ t, step s op = some t ∧ Settled t := by
  cases op with
  | setSource m => exact ⟨_, rfl, h.relabel m s.numBuffers⟩
  | setNumBuffers n => exact ⟨_, rfl, h.relabel s.sourceMode n⟩
  | startA ok =>
    rw [step]
    split
    · next hstart =>
      rw [Bool.and_eq_true, Option.isNone_iff_eq_none] at hstart
      refine ⟨_, rfl, Settled.of_idle (h.idle (by simp [hstart.1])) ?_⟩
      cases ok <;> simp
    · exact ⟨s, rfl, h⟩
  | startB e => exact startB_settled h hcareful
  | stop => exact stop_settled h hcareful

theorem init_settled : Settled init := by
  rw [Settled, if_neg (by simp [init])]
  exact ⟨rfl, rfl, rfl, fun _ => rfl, rfl, fun _ => ⟨rfl, rfl⟩, rfl⟩

/-- After every history of careful steps a start of the stopped element is all or nothing, unless
    the driver grants more buffers than `vdin1_bufs` has entries or an import gives up with the
    duplicate of a P010 buffer in hand; in both cases it is not. -/
theorem start_path_b_all_or_nothing {ops : List Op} (h : Along step Careful init ops) :
    ∃ s, run step init ops = some s ∧ (s.session = none → ∀ e : Answers,
      (AllOrNothing e s ↔ e.fits s ∧ ¬ e.loses s)) := by
  obtain ⟨s, hrun, hs⟩ := run_total (fun s op hs hop => step_settled hs hop) h init_settled
  exact ⟨s, hrun, fun hstopped e => allOrNothing_iff (hs.idle (by simp [hstopped]))⟩

/-- The driver grants what it is asked for; the second buffer cannot be queued. -/
def unqueued : Answers where
  openVdin1 := true
  querycap := true
  setInput := true
  setFormat := some true
  reqbufs := some
  heap := true
  alloc := fun _ => true
  qbuf := fun i => i ≠ 1
  streamon := true
  vkInit := true
  pool := fun _ => ⟨true, true, .imported⟩
  monitor := true
  subscribe := true

/-- A start that failed once fails again, and both times nothing is left but the heap. -/
theorem start_path_b_all_or_nothing_unqueued :
    ∃ s, run step init [.setSource .vdin1, .startB unqueued] = some s ∧ s.session = none ∧
      AllOrNothing unqueued s := by
  have hfits : ∀ s, unqueued.fits s := by
    intro s _ n hn
    rw [Answers.granted, unqueued, Option.some_inj] at hn
    exact hn ▸ Nat.min_le_right _ _
  have hcareful : Along step Careful init [.setSource .vdin1, .startB unqueued] :=
    ⟨trivial, fun s _ => ⟨fun _ => hfits s, fun _ _ => trivial⟩⟩
  obtain ⟨s, hrun, hs⟩ := start_path_b_all_or_nothing hcareful
  have hsession : (run step init [.setSource .vdin1, .startB unqueued]).map (·.session) =
      some none := rfl
  rw [hrun, Option.map_some, Option.some_inj] at hsession
  refine ⟨s, hrun, hsession, (hs hsession unqueued).mpr ⟨hfits s, ?_⟩⟩
  rintro ⟨-, n, -, hn, ⟨-, hq, -⟩, -⟩
  exact absurd (hq 1 (by omega)) (by simp [unqueued])

/-- The driver grants nine buffers. -/
def nineGranted : Answers := { unqueued with reqbufs := fun _ => some 9 }

/-- All buffers are queued, and Vulkan cannot allocate memory for the first P010 buffer. -/
def outOfMemory : Answers :=
  { unqueued with qbuf := fun _ => true, pool := fun _ => ⟨true, true, .noMemory⟩ }

/-- With nine buffers the start runs past the array. Without Vulkan memory it fails, and of the ten
    descriptors it has opened it closes eight: the heap stays with the element, the duplicate `9`
    with nobody. -/
theorem start_path_b_not_all_or_nothing : ∃ s, run step init [.setSource .vdin1] = some s ∧
    startPathB nineGranted s = none ∧ ¬ AllOrNothing nineGranted s ∧
    (startPathB outOfMemory s).map (fun r => (r.1, r.2.heapCmaFd, r.2.acts)) =
      some (false, some 1, [.take 0, .take 1, .take 2, .take 3, .take 4, .take 5, .take 6, .take 7,
        .take 8, .take 9, .drop 8, .drop 2, .drop 3, .drop 4, .drop 5, .drop 6, .drop 7,
        .drop 0]) ∧
    ¬ AllOrNothing outOfMemory s := by
  refine ⟨_, rfl, rfl, ?_, rfl, ?_⟩
  · rintro ⟨ok, t, heq, -⟩
    cases heq
  · rintro ⟨ok, t, heq, -, hclean⟩
    cases heq
    have hheap := ((hclean rfl).closed 9 (by decide)).2
    exact absurd hheap (by decide)

end Streambox.Element.PathBStart
