import Streambox.Element.Lifecycle
import Streambox.Lib.Custody

/-! streamboxsrc, `create_path_a`: who has the frame and the descriptors.

    A frame comes to hand with `vfmcap_acquire_frame`, a descriptor with each `dup`. A frame leaves
    with `vfmcap_release_frame`, a descriptor with `close` or with the `GstMemory` that took it. What
    is in hand at the end must be what the returned buffer owns: its memories the descriptors, its
    qdata the frame, which `patha_frame_release` gives back.

        acquire ─▶ flushing? ─▶ timeout, no signal, reconfigured, .. ─▶ dup ─▶ memory ─▶ buffer
                      │
                      └─▶ return, with the frame in hand -/

namespace Streambox.Element.FrameCustody
open Streambox.Lib
open Streambox.Lib.Custody (Accounted Turns)
open Streambox.PathB (Flow)
open Streambox.Vfmcap (Frame Ret)

/-- What comes to hand: the frame, and a descriptor for each of its planes. -/
inductive Resource where
  | frame
  | fd
  | fd2
  deriving DecidableEq, Repr

/-- A `GstMemory`: the descriptor it closes when it goes, and its size. -/
structure Memory where
  fd : Resource
  size : Nat
  deriving DecidableEq, Repr

/-- The `GstBuffer`: its memories, and the frame in its qdata. -/
structure Buffer where
  memories : List Memory
  frame : Frame
  deriving DecidableEq

/-- What the buffer owns. -/
def Buffer.owns (b : Buffer) : List Resource := .frame :: b.memories.map (·.fd)

/-- What a call does with the resources, and what it returns. -/
structure Returned where
  acts : List (Custody.Act Resource)
  flow : Flow
  buffer : Option Buffer
  deriving DecidableEq

/-- Leave with an error, the frame released and the buffer's memories gone. -/
def fails (acts : List (Custody.Act Resource)) (memories : List Memory) : Returned :=
  ⟨acts ++ memories.map (fun m => .drop m.fd) ++ [.drop .frame], .error, none⟩

/-- The size of the second memory. -/
def plane2Size (f : Frame) : Nat :=
  if f.pixelformat = Vfmcap.pixNv12 then f.width * f.height / 2
  else if f.pixelformat = Vfmcap.pixP010 then f.width * f.height
  else f.size / 2

/-- From the first `dup` to the end. -/
def wrapFrame (c : CreateA) (f : Frame) : Returned :=
  if !c.dup then fails [] []
  else if !c.alloc then fails [.take .fd, .drop .fd] []
  else
    let mem : Memory := ⟨.fd, f.size⟩
    if f.dmabufFd2 ≥ 0 then
      if !c.dup2 then fails [.take .fd] [mem]
      else if !c.alloc2 then fails [.take .fd, .take .fd2, .drop .fd2] [mem]
      else ⟨[.take .fd, .take .fd2], .ok, some ⟨[mem, ⟨.fd2, plane2Size f⟩], f⟩⟩
    else ⟨[.take .fd], .ok, some ⟨[mem], f⟩⟩

/-- `create_path_a` behind `vfmcap_acquire_frame`, which has returned `r` and filled in `f`; the
    session was started with this size. -/
def createPathA (width height : Nat) (c : CreateA) (r : Ret) (f : Frame) : Returned :=
  if c.flushing then ⟨[], .flushing, none⟩
  else match r with
    | .errTimeout => ⟨[], .error, none⟩
    | .errNosig => ⟨[], .eos, none⟩
    | .reconfigured => ⟨[.drop .frame], .eos, none⟩
    | .ok =>
      if f.width ≠ width ∨ f.height ≠ height then ⟨[.drop .frame], .eos, none⟩
      else wrapFrame c f
    | _ => ⟨[], .error, none⟩

/-- A frame comes with these results. -/
def acquires (r : Ret) : Bool := r = .ok || r = .reconfigured

/-- Everything that came to hand is dropped once or owned by the buffer that is returned, and there
    is one exactly with `GST_FLOW_OK`. -/
structure OwnedOnce (r : Ret) (t : Returned) : Prop where
  accounted : Accounted ((if acquires r then [.take .frame] else []) ++ t.acts)
    ((t.buffer.map Buffer.owns).getD [])
  returned : t.buffer.isSome ↔ t.flow = .ok

/-! ### The exits -/

/-- The acts of a call, from nothing in hand. -/
theorem accounted_of_turns {acts : List (Custody.Act Resource)} {held : List Resource}
    (hfair : Custody.Fair ∅ acts) (h : Turns acts [] held) : Accounted acts held := by
  have hstart : Accounted ([] : List (Custody.Act Resource)) ([] ++ []) :=
    ⟨trivial, List.nodup_nil, fun r => by simp [Custody.hand]⟩
  have hend := h [] [] (by simpa using hfair) hstart
  simpa using hend

/-- The memories of a buffer that goes. -/
theorem turns_unref (memories : List Memory) (held : List Resource) :
    Turns (memories.map fun m => .drop m.fd) (memories.map (·.fd) ++ held) held := by
  induction memories with
  | nil => exact Turns.nil
  | cons m memories ih => exact Turns.drop_then (.refl _) ih

/-- An exit with an error drops the frame, whatever memories the buffer has by then. -/
theorem turns_fails {acts : List (Custody.Act Resource)} {memories : List Memory}
    (h : Turns acts [.frame] (memories.map (·.fd) ++ [.frame])) :
    Turns (.take .frame :: (fails acts memories).acts) [] [] :=
  Turns.take_then ((h.append (turns_unref memories [.frame])).append Turns.drop)

/-- Past the size check every exit keeps account of the frame and of both descriptors. -/
theorem wrapFrame_owned (c : CreateA) (f : Frame) : OwnedOnce .ok (wrapFrame c f) := by
  have hfails : ∀ {acts memories}, Custody.Fair ∅ (.take .frame :: (fails acts memories).acts) →
      Turns acts [.frame] (memories.map (·.fd) ++ [.frame]) → OwnedOnce .ok (fails acts memories) :=
    fun hfair hturns => ⟨accounted_of_turns hfair (turns_fails hturns), by simp [fails]⟩
  unfold wrapFrame
  split
  · -- no descriptor
    exact hfails (by simp [fails, Custody.Fair]) Turns.nil
  · split
    · -- a descriptor that no memory takes
      exact hfails (by simp [fails, Custody.Fair]) (Turns.take_then Turns.drop)
    · dsimp only
      split
      · split
        · -- no second descriptor
          exact hfails (by simp [fails, Custody.Fair]) Turns.take
        · split
          · exact hfails (by simp [fails, Custody.Fair])
              (Turns.take_then (Turns.take_then Turns.drop))
          · refine ⟨accounted_of_turns (by simp [Custody.Fair, acquires]) ?_, by simp⟩
            have hturns : Turns [.take .frame, .take .fd, .take .fd2] []
                [.fd2, .fd, Resource.frame] :=
              Turns.take_then (Turns.take_then Turns.take)
            have hperm : [.fd2, .fd, Resource.frame].Perm [.frame, .fd, .fd2] := by decide
            exact hturns.perm (.refl _) hperm
      · refine ⟨accounted_of_turns (by simp [Custody.Fair, acquires]) ?_, by simp⟩
        have hturns : Turns [.take .frame, .take .fd] [] [.fd, Resource.frame] :=
          Turns.take_then Turns.take
        have hperm : [.fd, Resource.frame].Perm [.frame, .fd] := by decide
        exact hturns.perm (.refl _) hperm

/-- Nothing came to hand, or the frame that did is dropped. -/
theorem empty_owned {r : Ret} {acts : List (Custody.Act Resource)} {flow : Flow}
    (hacts : acts = if acquires r then [.drop .frame] else []) (hflow : flow ≠ .ok) :
    OwnedOnce r ⟨acts, flow, none⟩ := by
  refine ⟨?_, by simp [hflow]⟩
  simp only [hacts]
  split
  · exact accounted_of_turns (by simp [Custody.Fair]) (Turns.take_then Turns.drop)
  · exact accounted_of_turns trivial Turns.nil

theorem createPathA_flushing {width height : Nat} {c : CreateA} (hflushing : c.flushing = true)
    (r : Ret) (f : Frame) : createPathA width height c r f = ⟨[], .flushing, none⟩ := by
  unfold createPathA
  exact if_pos hflushing

/-- A call that returns early with a frame keeps it. -/
theorem not_owned_flushing {r : Ret} (h : acquires r = true) (flow : Flow) :
    ¬ OwnedOnce r ⟨[], flow, none⟩ := by
  intro howned
  have hhand := (howned.accounted.hand .frame).mp
  rw [if_pos h] at hhand
  exact List.not_mem_nil (hhand (Finset.mem_insert_self ..))

theorem createPathA_owned {width height : Nat} {c : CreateA} (hflushing : c.flushing = false)
    (r : Ret) (f : Frame) : OwnedOnce r (createPathA width height c r f) := by
  unfold createPathA
  rw [hflushing, if_neg (by simp)]
  cases r with
  | ok =>
    dsimp only
    split
    · exact empty_owned rfl (by simp)
    · exact wrapFrame_owned c f
  | reconfigured => exact empty_owned rfl (by simp)
  | errTimeout => exact empty_owned rfl (by simp)
  | errNosig => exact empty_owned rfl (by simp)
  | errIoctl => exact empty_owned rfl (by simp)
  | errVulkan => exact empty_owned rfl (by simp)
  | errNomem => exact empty_owned rfl (by simp)
  | errInval => exact empty_owned rfl (by simp)
  | errState => exact empty_owned rfl (by simp)

/-- Each frame and each descriptor is owned exactly once when `create_path_a` returns, unless a
    frame was acquired and the element is flushing when it looks. -/
theorem owned_once_iff (width height : Nat) (c : CreateA) (r : Ret) (f : Frame) :
    OwnedOnce r (createPathA width height c r f) ↔ (c.flushing = true → acquires r = false) := by
  constructor
  · intro howned hflushing
    rw [createPathA_flushing hflushing] at howned
    by_contra hframe
    exact not_owned_flushing (by simpa using hframe) .flushing howned
  · intro h
    by_cases hflushing : c.flushing = true
    · rw [createPathA_flushing hflushing]
      exact empty_owned (by simp [h hflushing]) (by simp)
    · exact createPathA_owned (by simpa using hflushing) r f

/-- A frame of full HD in one DMA-buf, and a call for which everything succeeds. -/
def oneBuf : Frame :=
  ⟨5, -1, 0, 1920, 1080, 1920, 3110400, Vfmcap.pixNv12, 8, 1, 40000, 0, none, 1⟩
def flushingCall : CreateA := ⟨[], true, true, true, true, true, none⟩

/-- The element starts to flush while the call waits for the frame: it returns, with the frame in
    hand. -/
theorem not_owned_once_flushing :
    createPathA 1920 1080 flushingCall .ok oneBuf = ⟨[], .flushing, none⟩ ∧
      ¬ OwnedOnce .ok (createPathA 1920 1080 flushingCall .ok oneBuf) :=
  ⟨rfl, not_owned_flushing rfl .flushing⟩

/-! ### The session -/

/-- What the session does with a frame, by the acts of the call. -/
def settle (a : PathA) (f : Frame) (requeue : Option Vfmcap.Errno) (t : Returned) : PathA :=
  if .drop .frame ∈ t.acts then a.giveBack f requeue
  else if t.buffer.isSome then { a with bufs := a.bufs ++ [f] }
  else a

/-- The exits behind the size check as the session sees them. -/
theorem wrapFrame_settles (a : PathA) (c : CreateA) (f : Frame) :
    (settle a f c.requeue (wrapFrame c f), (wrapFrame c f).flow) =
      if c.wraps f then ({ a with bufs := a.bufs ++ [f] }, .ok)
      else (a.giveBack f c.requeue, .error) := by
  have hsign : decide (f.dmabufFd2 < 0) = !decide (f.dmabufFd2 ≥ 0) := by
    by_cases h : f.dmabufFd2 < 0
    · have hnot : ¬ f.dmabufFd2 ≥ 0 := by omega
      simp [h, hnot]
    · have hpos : f.dmabufFd2 ≥ 0 := by omega
      simp [h, hpos]
  rw [CreateA.wraps, hsign, wrapFrame]
  cases c.dup <;> cases c.alloc <;> by_cases hsecond : f.dmabufFd2 ≥ 0 <;> cases c.dup2 <;>
    cases c.alloc2 <;> simp [settle, fails, hsecond]

/-- The session's `create_path_a` is this one: the frame is given back where the acts drop it, and
    stays with the buffer where one is returned. -/
theorem createPathA_settles {a : PathA} {c : CreateA} {w : Vfmcap.World} {r : Ret} {f : Frame}
    (h : Vfmcap.acquireFrame a.world 1000 c.attempts = some (w, r, some f))
    (hr : acquires r = true) :
    Element.createPathA a c =
      some (settle { a with world := { w with frames := w.frames ++ [f] } } f c.requeue
        (createPathA a.width a.height c r f), (createPathA a.width a.height c r f).flow) := by
  unfold Element.createPathA
  rw [h]
  by_cases hflushing : c.flushing = true
  · rw [createPathA_flushing hflushing]
    simp [hflushing, settle]
  · unfold createPathA
    simp only [hflushing, Option.toList_some]
    cases r with
    | ok =>
      by_cases hsize : f.width ≠ a.width ∨ f.height ≠ a.height
      · simp [hsize, settle]
      · simp only [Bool.false_eq_true, if_false, if_neg hsize]
        rw [wrapFrame_settles]
        split <;> rfl
    | reconfigured => simp [settle]
    | errTimeout => cases hr
    | errNosig => cases hr
    | errIoctl => cases hr
    | errVulkan => cases hr
    | errNomem => cases hr
    | errInval => cases hr
    | errState => cases hr

end Streambox.Element.FrameCustody
