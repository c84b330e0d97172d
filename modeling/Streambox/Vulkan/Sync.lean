import Streambox.Lib.Run
import Streambox.Lib.Brackets
import Streambox.Vulkan.OutputPools

/-! libvfmcap, vfmcap_vulkan.c: the access brackets of the DMA-bufs.

    Around a conversion the code tells the kernel with `DMA_BUF_IOCTL_SYNC` that access to a DMA-buf
    starts and ends. Most renders end their accesses in `vfmcap_vk_convert_wait`, which knows the
    descriptors from the `pending_*` fields; those are set after the submit, and the functions
    return at once when a step before that fails.

    A function is a list of statements: calls that may fail, at which it returns, and what it does
    in between. -/

namespace Streambox.Vulkan.Sync
open Streambox.Lib

/-- Access to a DMA-buf, to read it or to write it. -/
structure Access where
  fd : Int
  write : Bool
  deriving DecidableEq, Repr

/-- The pending fields of VulkanCtx, and the ioctls made so far. -/
structure State where
  hasPending : Bool
  pendingInFd : Int
  pendingOutFd : Int
  pendingOutFd2 : Int
  log : List (Bracket Access)
  deriving DecidableEq, Repr

/-- A step of a function. `check` returns with an error if the step fails. -/
inductive Stmt
  | check (ok : Bool)
  | sync (b : Bracket Access)
  | pend (inFd outFd outFd2 : Int)
  | convertWait
  deriving DecidableEq, Repr

def startRead (fd : Int) : Stmt := .sync (.start ⟨fd, false⟩)
def startWrite (fd : Int) : Stmt := .sync (.start ⟨fd, true⟩)
def endRead (fd : Int) : Stmt := .sync (.stop ⟨fd, false⟩)
def endWrite (fd : Int) : Stmt := .sync (.stop ⟨fd, true⟩)

/-- End an access, unless there is no descriptor. -/
def endAccess (a : Access) : List (Bracket Access) := if a.fd ≥ 0 then [.stop a] else []

/-- vfmcap_vk_convert_wait: the accesses end whether or not the fence could be waited for. -/
def convertWait (s : State) : State :=
  if s.hasPending then
    ⟨false, -1, -1, -1, s.log ++ (endAccess ⟨s.pendingInFd, false⟩ ++
      endAccess ⟨s.pendingOutFd, true⟩ ++ endAccess ⟨s.pendingOutFd2, true⟩)⟩
  else s

/-- Execute statements until one fails. -/
def exec : State → List Stmt → State
  | s, [] => s
  | s, .check ok :: rest => if ok then exec s rest else s
  | s, .sync b :: rest => exec { s with log := s.log ++ [b] } rest
  | s, .pend inFd outFd outFd2 :: rest => exec ⟨true, inFd, outFd, outFd2, s.log⟩ rest
  | s, .convertWait :: rest => exec (convertWait s) rest

/-! ### The functions -/

/-- What the steps of a call answer; each call has some of them. The cache lookups `input`,
    `output`, `y` and `uv` may also fail because the descriptor is no descriptor. `dump` says that
    the frame is the one to be dumped and its planes could be mapped. -/
structure Answers where
  acquired : Bool
  input : Bool
  output : Bool
  y : Bool
  uv : Bool
  pipelineInit : Bool
  resetCommandPool : Bool
  resetFences : Bool
  beginCommandBuffer : Bool
  endCommandBuffer : Bool
  queueSubmit : Bool
  waitForFences : Bool
  dump : Bool
  deriving DecidableEq, Repr

/-- A lookup duplicates the descriptor, so it succeeds only for a descriptor. -/
def found (ok : Bool) (fd : Int) : Bool := ok && decide (fd ≥ 0)

/-- The formats with one or two planes. -/
def planar : Fmt → Bool
  | .nv12 => true
  | .nv21 => true
  | .p010 => true
  | .nv12Afbc => false
  | .a2b10g10r10Afbc => false

/-- The command buffer is reset and recorded. -/
def record (a : Answers) : List Stmt :=
  [.check a.resetCommandPool, .check a.beginCommandBuffer, .check a.endCommandBuffer]

/-- vfmcap_vk_convert_submit. -/
def convertSubmit (inFd outFd : Int) (a : Answers) : List Stmt :=
  [.check (found a.input inFd), startRead inFd, .check (found a.output outFd), startWrite outFd] ++
    record a ++ [.check a.queueSubmit, .pend inFd outFd (-1)]

/-- vfmcap_vk_render_submit. -/
def renderSubmit (fmt : Fmt) (inFd : Int) (yFd uvFd : Nat) (a : Answers) : List Stmt :=
  [.check (planar fmt), .check (found a.input inFd), .check a.y, .check a.uv, startRead inFd,
    startWrite yFd, startWrite uvFd] ++ record a ++ [.check a.queueSubmit, .pend inFd yFd uvFd]

/-- vfmcap_vk_render_and_wait; the descriptors are those of the entries it acquires. -/
def renderAndWait (fmt : Fmt) (contiguous : Bool) (inFd : Int) (yFd uvFd : Nat) (a : Answers) :
    List Stmt :=
  [.check (planar fmt), .check a.acquired] ++
    if contiguous then
      [.check (found a.input inFd), startRead inFd, startWrite yFd] ++ record a ++
        [.check a.queueSubmit, .pend inFd yFd (-1), .convertWait]
    else renderSubmit fmt inFd yFd uvFd a ++ [.convertWait]

/-- vfmcap_vk_render_predecode_and_wait. -/
def renderPredecodeAndWait (fmt : Fmt) (inFd : Int) (yFd uvFd : Nat) (a : Answers) : List Stmt :=
  [.check (planar fmt), .check (found a.input inFd), startRead inFd, .check a.acquired] ++
    record a ++
    [startWrite yFd, startWrite uvFd, .check a.queueSubmit, .pend inFd yFd uvFd, .convertWait]

/-- vfmcap_vk_render_10bit_and_wait, with a fence of its own and without the pending fields. The
    dumped frame is read through the first DMA-buf. -/
def render10bitAndWait (fmt : Fmt) (contiguous : Bool) (inFd : Int) (yFd uvFd : Nat) (a : Answers) :
    List Stmt :=
  [.check (planar fmt), .check (found a.input inFd), startRead inFd, .check a.acquired,
    .check a.pipelineInit, .check a.resetCommandPool, .check a.resetFences,
    .check a.beginCommandBuffer, .check a.endCommandBuffer, startWrite yFd] ++
    (if contiguous then [] else [startWrite uvFd]) ++
    [.check a.queueSubmit, .check a.waitForFences, endWrite yFd] ++
    (if contiguous then [] else [endWrite uvFd]) ++
    (if a.dump then [startRead yFd, endRead yFd] else [])

/-- The calls, each with its wait. -/
inductive Call
  | convert (inFd outFd : Int) (a : Answers)
  | renderAndWait (fmt : Fmt) (contiguous : Bool) (inFd : Int) (yFd uvFd : Nat) (a : Answers)
  | renderPredecodeAndWait (fmt : Fmt) (inFd : Int) (yFd uvFd : Nat) (a : Answers)
  | render10bitAndWait (fmt : Fmt) (contiguous : Bool) (inFd : Int) (yFd uvFd : Nat) (a : Answers)
  deriving DecidableEq, Repr

/-- One call; a conversion is waited for also if it could not be submitted. -/
def perform (s : State) : Call → State
  | .convert inFd outFd a => convertWait (exec s (convertSubmit inFd outFd a))
  | .renderAndWait fmt contiguous inFd yFd uvFd a =>
    exec s (renderAndWait fmt contiguous inFd yFd uvFd a)
  | .renderPredecodeAndWait fmt inFd yFd uvFd a =>
    exec s (renderPredecodeAndWait fmt inFd yFd uvFd a)
  | .render10bitAndWait fmt contiguous inFd yFd uvFd a =>
    exec s (render10bitAndWait fmt contiguous inFd yFd uvFd a)

def step (s : State) (c : Call) : Option State := some (perform s c)

/-- A context without a pending job. -/
def idle : State := ⟨false, -1, -1, -1, []⟩

/-! ### When the brackets are balanced -/

/-- The command buffer was reset and recorded. -/
def recorded (a : Answers) : Prop :=
  a.resetCommandPool = true ∧ a.beginCommandBuffer = true ∧ a.endCommandBuffer = true

/-- If the call gets as far as the first access, it gets to the end of the accesses. The 10-bit
    render never ends the access to its input, so it must not get there. -/
def Bracketed : Call → Prop
  | .convert inFd outFd a =>
    found a.input inFd = true → found a.output outFd = true ∧ recorded a ∧ a.queueSubmit = true
  | .renderAndWait fmt contiguous inFd _ _ a =>
    planar fmt = true ∧ a.acquired = true ∧ found a.input inFd = true ∧
      (contiguous = true ∨ a.y = true ∧ a.uv = true) → recorded a ∧ a.queueSubmit = true
  | .renderPredecodeAndWait fmt inFd _ _ a =>
    planar fmt = true ∧ found a.input inFd = true →
      a.acquired = true ∧ recorded a ∧ a.queueSubmit = true
  | .render10bitAndWait fmt _ inFd _ _ a => ¬ (planar fmt = true ∧ found a.input inFd = true)

/-- No step of the statements fails. -/
def Passes (l : List Stmt) : Prop := ∀ ok, .check ok ∈ l → ok = true

/-- A statement that checks something or starts an access. -/
def Opening : Stmt → Prop
  | .check _ => True
  | .sync (.start _) => True
  | .sync (.stop _) => False
  | .pend _ _ _ => False
  | .convertWait => False

/-- The accesses that statements start. -/
def started : List Stmt → List Access
  | [] => []
  | .sync (.start k) :: rest => k :: started rest
  | _ :: rest => started rest

/-- The state after accesses were started. -/
def opened (s : State) (ks : List Access) : State := { s with log := s.log ++ ks.map .start }

theorem opened_nil (s : State) : opened s [] = s := by simp [opened]

theorem opened_opened (s : State) (k : Access) (ks : List Access) :
    opened (opened s [k]) ks = opened s (k :: ks) := by simp [opened]

theorem passes_nil : Passes [] := by simp [Passes]

theorem passes_check {ok : Bool} {l : List Stmt} :
    Passes (.check ok :: l) ↔ ok = true ∧ Passes l := by simp [Passes]

theorem passes_sync {b : Bracket Access} {l : List Stmt} :
    Passes (.sync b :: l) ↔ Passes l := by simp [Passes]

/-- Statements that only check and start are executed to their end, or left with some accesses
    started. -/
theorem exec_opening {body rest : List Stmt} (h : ∀ st ∈ body, Opening st) (s : State) :
    (Passes body ∧ exec s (body ++ rest) = exec (opened s (started body)) rest) ∨
      (¬ Passes body ∧ ∃ ks, ks <+: started body ∧ exec s (body ++ rest) = opened s ks) := by
  induction body generalizing s with
  | nil => exact .inl ⟨passes_nil, by rw [List.nil_append, started, opened_nil]⟩
  | cons st body ih =>
    have hst := h st (List.mem_cons_self ..)
    have hbody := fun st' hst' => h st' (List.mem_cons_of_mem st hst')
    rcases st with ok | (k | k) | _ | _
    · rcases ok with _ | _
      · exact .inr ⟨by simp [passes_check], [], List.nil_prefix, (opened_nil s).symm⟩
      · rw [passes_check]
        simpa [exec, started] using ih hbody s
    · have hexec : exec s (.sync (.start k) :: body ++ rest) =
          exec (opened s [k]) (body ++ rest) := rfl
      rw [passes_sync, hexec]
      rcases ih hbody (opened s [k]) with ⟨hpass, hend⟩ | ⟨hfail, ks, hks, hend⟩
      · exact .inl ⟨hpass, by rw [hend, opened_opened, started]⟩
      · exact .inr ⟨hfail, k :: ks, List.cons_prefix_cons.mpr ⟨rfl, hks⟩,
          by rw [hend, opened_opened]⟩
    · exact hst.elim
    · exact hst.elim
    · exact hst.elim

/-- What a call does to a context without a pending job: it leaves none, and the brackets that it
    adds are balanced if and only if `ok`. -/
def Adds (s t : State) (ok : Prop) : Prop :=
  t.hasPending = false ∧ ∃ seg, t.log = s.log ++ seg ∧ (Bracket.Balanced seg ↔ ok)

theorem Adds.congr {s t : State} {ok ok' : Prop} (h : Adds s t ok) (hok : ok ↔ ok') :
    Adds s t ok' := by
  obtain ⟨hidle, seg, hlog, hseg⟩ := h
  exact ⟨hidle, seg, hlog, hseg.trans hok⟩

/-- A call that checks, starts an access, checks and starts more, and then does the rest. -/
theorem exec_adds {s : State} (guards : List Stmt) (k : Access) (body rest : List Stmt) (ok : Prop)
    (hs : s.hasPending = false) (hguards : ∀ st ∈ guards, Opening st) (hnone : started guards = [])
    (hbody : ∀ st ∈ body, Opening st)
    (hrest : Passes guards → Passes body → Adds s (exec (opened s (k :: started body)) rest) ok) :
    Adds s (exec s (guards ++ (.sync (.start k) :: body ++ rest)))
      (Passes guards → Passes body ∧ ok) := by
  rcases exec_opening hguards s with ⟨hpass, hexec⟩ | ⟨hfail, ks, hks, hexec⟩
  · rw [hexec, hnone, opened_nil]
    have hstart : exec s (.sync (.start k) :: body ++ rest) = exec (opened s [k]) (body ++ rest) :=
      rfl
    rw [hstart]
    rcases exec_opening hbody (opened s [k]) with ⟨hpass', hexec⟩ | ⟨hfail, ks, -, hexec⟩
    · rw [hexec, opened_opened]
      simpa [hpass, hpass'] using hrest hpass hpass'
    · rw [hexec, opened_opened]
      refine ⟨hs, (k :: ks).map .start, rfl, iff_of_false (Bracket.not_balanced_starts k ks) ?_⟩
      simp [hpass, hfail]
  · rw [hnone, List.prefix_nil] at hks
    rw [hexec, hks, opened_nil]
    refine ⟨hs, [], (List.append_nil s.log).symm, ?_⟩
    simp [hfail, Bracket.balanced_nil]

/-! ### The calls -/

theorem found_nonneg {ok : Bool} {fd : Int} (h : found ok fd = true) : fd ≥ 0 := by
  simp only [found, Bool.and_eq_true, decide_eq_true_eq] at h
  exact h.2

/-- A call that submits a job and waits for it ends the accesses that were started for the job. -/
theorem job_adds {s : State} (guards body : List Stmt) (inFd outFd outFd2 : Int)
    (hs : s.hasPending = false) (hguards : ∀ st ∈ guards, Opening st) (hnone : started guards = [])
    (hbody : ∀ st ∈ body, Opening st)
    (hends : Passes guards → Passes body →
      endAccess ⟨inFd, false⟩ ++ endAccess ⟨outFd, true⟩ ++ endAccess ⟨outFd2, true⟩ =
        (⟨inFd, false⟩ :: started body).map .stop) :
    Adds s (exec s (guards ++ (startRead inFd :: body ++ [.pend inFd outFd outFd2, .convertWait])))
      (Passes guards → Passes body) := by
  have hadds := exec_adds guards ⟨inFd, false⟩ body [.pend inFd outFd outFd2, .convertWait] True
    hs hguards hnone hbody
  refine (hadds fun hpass hpass' => ?_).congr (by rw [and_true])
  set ks := (⟨inFd, false⟩ : Access) :: started body with hks
  refine ⟨rfl, ks.map .start ++ ks.map .stop, ?_, iff_true_intro (Bracket.balanced_starts_stops ks)⟩
  rw [← List.append_assoc, ← hends hpass hpass']
  rfl

theorem convertWait_idle {s : State} (hs : s.hasPending = false) : convertWait s = s := by
  simp [convertWait, hs]

/-- A job that is submitted last may be waited for as if that were the next step. -/
theorem convertWait_exec {body : List Stmt} (h : ∀ st ∈ body, Opening st) {s : State}
    (hs : s.hasPending = false) (inFd outFd outFd2 : Int) :
    convertWait (exec s (body ++ [.pend inFd outFd outFd2])) =
      exec s (body ++ [.pend inFd outFd outFd2, .convertWait]) := by
  induction body generalizing s with
  | nil => rfl
  | cons st body ih =>
    have hst := h st (List.mem_cons_self ..)
    have hbody := fun st' hst' => h st' (List.mem_cons_of_mem st hst')
    rcases st with ok | (k | k) | _ | _
    · rcases ok with _ | _
      · exact convertWait_idle hs
      · exact ih hbody hs
    · exact ih hbody hs
    · exact hst.elim
    · exact hst.elim
    · exact hst.elim

/-- The command buffer is recorded and submitted. -/
def submitted (a : Answers) : List Stmt := record a ++ [.check a.queueSubmit]

theorem started_append (l m : List Stmt) : started (l ++ m) = started l ++ started m := by
  induction l with
  | nil => rfl
  | cons st l ih => rcases st with _ | (_ | _) | _ | _ <;> simp [started, ih]

theorem started_submitted (a : Answers) : started (submitted a) = [] := rfl

theorem passes_submitted (a : Answers) :
    Passes (submitted a) ↔ recorded a ∧ a.queueSubmit = true := by
  simp [submitted, record, recorded, Passes, and_assoc]

theorem perform_convert {s : State} (hs : s.hasPending = false) (inFd outFd : Int) (a : Answers) :
    Adds s (perform s (.convert inFd outFd a)) (Bracketed (.convert inFd outFd a)) := by
  have hopens : ∀ st ∈ [.check (found a.input inFd), startRead inFd,
      .check (found a.output outFd), startWrite outFd] ++ submitted a, Opening st := by
    simp [Opening, submitted, record, startRead, startWrite]
  have hperform : perform s (.convert inFd outFd a) = exec s ([.check (found a.input inFd)] ++
      (startRead inFd :: (.check (found a.output outFd) :: startWrite outFd :: submitted a) ++
        [.pend inFd outFd (-1), .convertWait])) := convertWait_exec hopens hs inFd outFd (-1)
  rw [hperform]
  refine (job_adds _ _ inFd outFd (-1) hs (by simp [Opening]) rfl ?_ ?_).congr ?_
  · simp [Opening, submitted, record, startWrite]
  · intro hin hout
    have hinFd := found_nonneg (passes_check.mp hin).1
    have houtFd := found_nonneg (passes_check.mp hout).1
    simp [endAccess, hinFd, houtFd, started, startWrite, started_submitted]
  · simp only [Bracketed, passes_check, passes_nil, and_true, startWrite, passes_sync,
      passes_submitted]

theorem perform_renderAndWait {s : State} (hs : s.hasPending = false) (fmt : Fmt)
    (contiguous : Bool) (inFd : Int) (yFd uvFd : Nat) (a : Answers) :
    Adds s (perform s (.renderAndWait fmt contiguous inFd yFd uvFd a))
      (Bracketed (.renderAndWait fmt contiguous inFd yFd uvFd a)) := by
  rcases contiguous with _ | _
  · refine (job_adds [.check (planar fmt), .check a.acquired, .check (planar fmt),
      .check (found a.input inFd), .check a.y, .check a.uv]
      (startWrite yFd :: startWrite uvFd :: submitted a) inFd yFd uvFd hs
      (by simp [Opening]) rfl ?_ ?_).congr ?_
    · simp [Opening, submitted, record, startWrite]
    · intro hin _
      simp only [passes_check] at hin
      have hinFd := found_nonneg hin.2.2.2.1
      simp [endAccess, hinFd, started, startWrite, started_submitted]
    · simp only [Bracketed, passes_check, passes_nil, and_true, startWrite, passes_sync,
        passes_submitted]
      simp only [Bool.false_eq_true, false_or]
      constructor
      · rintro h ⟨hfmt, hacq, hin, hy, huv⟩
        exact h ⟨hfmt, hacq, hfmt, hin, hy, huv⟩
      · rintro h ⟨hfmt, hacq, -, hin, hy, huv⟩
        exact h ⟨hfmt, hacq, hin, hy, huv⟩
  · refine (job_adds [.check (planar fmt), .check a.acquired, .check (found a.input inFd)]
      (startWrite yFd :: submitted a) inFd yFd (-1) hs (by simp [Opening]) rfl ?_ ?_).congr ?_
    · simp [Opening, submitted, record, startWrite]
    · intro hin _
      simp only [passes_check] at hin
      have hinFd := found_nonneg hin.2.2.1
      simp [endAccess, hinFd, started, startWrite, started_submitted]
    · simp only [Bracketed, passes_check, passes_nil, and_true, startWrite, passes_sync,
        passes_submitted, true_or]

theorem perform_renderPredecodeAndWait {s : State} (hs : s.hasPending = false) (fmt : Fmt)
    (inFd : Int) (yFd uvFd : Nat) (a : Answers) :
    Adds s (perform s (.renderPredecodeAndWait fmt inFd yFd uvFd a))
      (Bracketed (.renderPredecodeAndWait fmt inFd yFd uvFd a)) := by
  refine (job_adds [.check (planar fmt), .check (found a.input inFd)]
    ([.check a.acquired] ++ record a ++ [startWrite yFd, startWrite uvFd, .check a.queueSubmit])
    inFd yFd uvFd hs (by simp [Opening]) rfl ?_ ?_).congr ?_
  · simp [Opening, record, startWrite]
  · intro hin _
    simp only [passes_check] at hin
    have hinFd := found_nonneg hin.2.1
    simp [endAccess, hinFd, started, startWrite, record]
  · simp [Bracketed, record, recorded, Passes, startWrite, and_assoc]

/-- The accesses that the 10-bit render writes to. -/
def writes (contiguous : Bool) (yFd uvFd : Nat) : List Access :=
  if contiguous then [⟨yFd, true⟩] else [⟨yFd, true⟩, ⟨uvFd, true⟩]

/-- The accesses of the dump. -/
def dumps (a : Answers) (yFd : Nat) : List Access := if a.dump then [⟨yFd, false⟩] else []

theorem exec_syncs (s : State) (bs : List (Bracket Access)) :
    exec s (bs.map .sync) = { s with log := s.log ++ bs } := by
  induction bs generalizing s with
  | nil => simp [exec]
  | cons b bs ih => simp [exec, ih]

theorem started_syncs (ks : List Access) : started ((ks.map .start).map .sync) = ks := by
  induction ks with
  | nil => rfl
  | cons k ks ih => simpa [started] using ih

/-- The 10-bit render ends what it writes to and what it dumps, but not the access to its input. -/
theorem perform_render10bitAndWait {s : State} (hs : s.hasPending = false) (fmt : Fmt)
    (contiguous : Bool) (inFd : Int) (yFd uvFd : Nat) (a : Answers) :
    Adds s (perform s (.render10bitAndWait fmt contiguous inFd yFd uvFd a))
      (Bracketed (.render10bitAndWait fmt contiguous inFd yFd uvFd a)) := by
  set ws := writes contiguous yFd uvFd with hws
  set ds := dumps a yFd with hds
  have hperform : perform s (.render10bitAndWait fmt contiguous inFd yFd uvFd a) =
      exec s ([.check (planar fmt), .check (found a.input inFd)] ++
        (startRead inFd :: ([.check a.acquired, .check a.pipelineInit, .check a.resetCommandPool,
          .check a.resetFences, .check a.beginCommandBuffer, .check a.endCommandBuffer] ++
          (ws.map .start).map .sync ++ [.check a.queueSubmit, .check a.waitForFences]) ++
          (ws.map Bracket.stop ++ (ds.map Bracket.start ++ ds.map Bracket.stop)).map .sync)) := by
    rcases contiguous with _ | _ <;> rcases hdump : a.dump with _ | _ <;>
      simp [perform, render10bitAndWait, hws, hds, writes, dumps, hdump, startRead, startWrite,
        endRead, endWrite]
  rw [hperform]
  refine (exec_adds _ ⟨inFd, false⟩ _ _ False hs (by simp [Opening]) rfl ?_ ?_).congr ?_
  · intro st hst
    simp only [List.mem_append, List.mem_map] at hst
    rcases hst with (hst | ⟨b, ⟨k, -, rfl⟩, rfl⟩) | hst
    · simp only [List.mem_cons, List.not_mem_nil, or_false] at hst
      rcases hst with rfl | rfl | rfl | rfl | rfl | rfl <;> trivial
    · trivial
    · simp only [List.mem_cons, List.not_mem_nil, or_false] at hst
      rcases hst with rfl | rfl <;> trivial
  · intro _ _
    have hclosed : Bracket.Balanced (ws.map .start ++ ws.map .stop ++
        (ds.map .start ++ ds.map .stop)) :=
      (Bracket.balanced_starts_stops ws).append_iff.mpr (Bracket.balanced_starts_stops ds)
    rw [exec_syncs]
    refine ⟨hs, _, ?_, iff_false_intro (hclosed.not_start_cons ⟨inFd, false⟩)⟩
    simp only [opened, started_append, started_syncs, started, List.nil_append, List.append_nil,
      List.map_cons, List.cons_append, List.append_assoc]
  · simp [Bracketed, passes_check, passes_nil]

/-- What any call does to a context without a pending job. -/
theorem perform_adds {s : State} (hs : s.hasPending = false) (c : Call) :
    Adds s (perform s c) (Bracketed c) := by
  cases c with
  | convert inFd outFd a => exact perform_convert hs inFd outFd a
  | renderAndWait fmt contiguous inFd yFd uvFd a =>
    exact perform_renderAndWait hs fmt contiguous inFd yFd uvFd a
  | renderPredecodeAndWait fmt inFd yFd uvFd a =>
    exact perform_renderPredecodeAndWait hs fmt inFd yFd uvFd a
  | render10bitAndWait fmt contiguous inFd yFd uvFd a =>
    exact perform_render10bitAndWait hs fmt contiguous inFd yFd uvFd a

/-! ### All calls -/

theorem step_idle {s s' : State} {c : Call} (hs : s.hasPending = false) (h : step s c = some s') :
    s'.hasPending = false := by
  cases h
  exact (perform_adds hs c).1

/-- After balanced brackets a call leaves balanced brackets if and only if its own are. -/
theorem step_balanced_iff {s s' : State} {c : Call} (hs : s.hasPending = false)
    (hbal : Bracket.Balanced s.log) (h : step s c = some s') :
    Bracket.Balanced s'.log ↔ Bracketed c := by
  cases h
  obtain ⟨-, seg, hlog, hseg⟩ := perform_adds hs c
  rw [hlog, hbal.append_iff, hseg]

/-- The brackets are balanced whenever a call has returned, if and only if each call that starts an
    access gets to where the accesses end, and no 10-bit render starts one. -/
theorem brackets_balanced_iff {calls : List Call} {s : State}
    (hrun : run step idle calls = some s) :
    (∀ before t, before <+: calls → run step idle before = some t → Bracket.Balanced t.log) ↔
      ∀ c ∈ calls, Bracketed c := by
  rw [← along_iff_forall hrun]
  exact prefixes_iff_along (fun _ _ _ => step_idle) (fun _ _ _ => step_balanced_iff) hrun rfl
    Bracket.balanced_nil

/-- Every step of a call succeeds. -/
def smooth : Answers :=
  ⟨true, true, true, true, true, true, true, true, true, true, true, true, false⟩

theorem conversion_and_render_balanced :
    Bracket.Balanced (perform (perform idle (.convert 10 11 smooth))
      (.renderAndWait .nv12 false 10 12 13 smooth)).log := by
  have hrun : run step idle [.convert 10 11 smooth, .renderAndWait .nv12 false 10 12 13 smooth] =
    some (perform (perform idle (.convert 10 11 smooth))
      (.renderAndWait .nv12 false 10 12 13 smooth)) := rfl
  refine (brackets_balanced_iff hrun).mpr ?_ _ _ (List.prefix_refl _) hrun
  intro c hc
  simp only [List.mem_cons, List.not_mem_nil, or_false] at hc
  rcases hc with rfl | rfl
  · exact fun _ => ⟨rfl, ⟨rfl, rfl, rfl⟩, rfl⟩
  · exact fun _ => ⟨⟨rfl, rfl, rfl⟩, rfl⟩

/-- A conversion whose output cannot be imported, and a 10-bit render in which all goes well, leave
    the access to their input started. -/
theorem input_access_not_ended :
    ¬ Bracket.Balanced (perform idle (.convert 10 11 { smooth with output := false })).log ∧
      ¬ Bracket.Balanced (perform idle (.render10bitAndWait .p010 false 10 12 13 smooth)).log := by
  refine ⟨fun h => ?_, fun h => ?_⟩
  · exact absurd (h.even ⟨10, false⟩) (by decide)
  · exact absurd (h.even ⟨10, false⟩) (by decide)

end Streambox.Vulkan.Sync
