import Streambox.Vfmcap.Calls
import Mathlib.Data.List.Induction
import Mathlib.Tactic.SplitIfs

/-! libvfmcap: frame-rate decimation over whole runs.

    The accumulator starts at the first timestamp and grows by the interval with every delivery, so
    after `k` deliveries it stands at `t₀ + k * I`. A frame is dropped while it is more than half an
    interval before that, which makes the next delivery the first frame from
    `t₀ + k * I - I / 2` on. The accumulator is never set from a later timestamp: nothing drifts. -/

namespace Streambox.Vfmcap.Decimation
open Streambox.Lib

/-! ### The accumulator -/

/-- An accumulator of zero starts at the timestamp. -/
def startAt (accum timestampUs : Nat) : Nat := if accum = 0 then timestampUs else accum

/-- `(int64_t)` of a `uint64_t`. -/
def toInt64 (a : Nat) : Int := (a : Int).bmod (2 ^ 64)

def ahead (accum timestampUs : Nat) : Int := toInt64 accum - toInt64 timestampUs

/-- One frame: the new accumulator, and whether the frame is delivered. -/
def tick (interval accum timestampUs : Nat) : Nat × Bool :=
  if ahead (startAt accum timestampUs) timestampUs > ((interval / 2 : Nat) : Int) then
    (startAt accum timestampUs, false)
  else ((startAt accum timestampUs + interval) % 2 ^ 64, true)

theorem decimate_eq_tick {c : Ctx} {interval : Nat} (hcfg : c.config.frameInterval = some interval)
    (hpending : c.reconfigPending = false) (timestampUs : Nat) :
    decimate c timestampUs = ({ c with tsAccum := (tick interval c.tsAccum timestampUs).1 },
      !(tick interval c.tsAccum timestampUs).2) := by
  unfold decimate
  simp only [hcfg, hpending, Bool.false_eq_true, if_false]
  by_cases h : ahead (startAt c.tsAccum timestampUs) timestampUs > ((interval / 2 : Nat) : Int)
  · rw [tick, if_pos h]
    exact if_pos h
  · rw [tick, if_neg h]
    exact if_neg h

/-- With a notice pending nothing is decimated. -/
theorem decimate_pending {c : Ctx} (hpending : c.reconfigPending = true) (timestampUs : Nat) :
    decimate c timestampUs = (c, false) := by
  unfold decimate
  cases c.config.frameInterval with
  | none => rfl
  | some interval => exact if_pos hpending

/-- A captured frame: its timestamp, and whether it was delivered. -/
structure Shot where
  timestampUs : Nat
  delivered : Bool
  deriving DecidableEq, Repr

/-- The accumulator takes a frame, with the decision that it made. -/
def shoot (next : Nat → Nat → Nat × Bool) (accum : Nat) (f : Shot) : Option Nat :=
  if (next accum f.timestampUs).2 = f.delivered then some (next accum f.timestampUs).1 else none

/-- The decision is the accumulator's. -/
theorem run_shoot (next : Nat → Nat → Nat × Bool) (accum timestampUs : Nat) :
    run (shoot next) accum [⟨timestampUs, (next accum timestampUs).2⟩] =
      some (next accum timestampUs).1 :=
  run_cons.mpr ⟨_, if_pos rfl, rfl⟩

/-- How many were delivered. -/
def deliveries (frames : List Shot) : Nat := frames.countP (·.delivered)

/-- The `k`-th delivery after the first is frame `n`, with its timestamp. -/
def Delivery (frames : List Shot) (k n timestampUs : Nat) : Prop :=
  frames[n]? = some ⟨timestampUs, true⟩ ∧ deliveries (frames.take n) = k

/-- From here on a frame is taken as the `k`-th after the first. -/
def due (t₀ interval k : Nat) : Nat := t₀ + k * interval - interval / 2

/-- The first frame starts the accumulator and is delivered. -/
theorem tick_zero (interval timestampUs : Nat) :
    tick interval 0 timestampUs = ((timestampUs + interval) % 2 ^ 64, true) := by
  have hnot : ¬ ahead timestampUs timestampUs > ((interval / 2 : Nat) : Int) := by
    rw [ahead, Int.sub_self]
    omega
  rw [tick, startAt, if_pos rfl, if_neg hnot]

theorem bmod_of_lt {a : Nat} (h : a < 2 ^ 63) : (a : Int).bmod (2 ^ 64) = a := by
  rw [Int.bmod_def]
  split_ifs <;> omega

theorem toInt64_of_lt {a : Nat} (h : a < 2 ^ 63) : toInt64 a = a := bmod_of_lt h

/-- Below `2 ^ 63` the signed difference is the difference. -/
theorem tick_pos {interval accum timestampUs : Nat} (haccum : 0 < accum) (hbig : accum < 2 ^ 63)
    (hts : timestampUs < 2 ^ 63) :
    tick interval accum timestampUs =
      if accum ≤ timestampUs + interval / 2 then ((accum + interval) % 2 ^ 64, true)
      else (accum, false) := by
  have hne : accum ≠ 0 := by omega
  have hahead : ahead accum timestampUs = accum - timestampUs := by
    rw [ahead, toInt64_of_lt hbig, toInt64_of_lt hts]
  rw [tick, startAt, if_neg hne, hahead]
  by_cases hle : accum ≤ timestampUs + interval / 2
  · rw [if_neg (by omega), if_pos hle]
  · rw [if_pos (by omega), if_neg hle]

/-- Timestamps that start at `t₀`, with an interval, small enough for signed arithmetic. -/
structure Timed (interval t₀ : Nat) (frames : List Shot) : Prop where
  interval_pos : 0 < interval
  interval_lt : interval < 2 ^ 61
  start_pos : 0 < t₀
  first : ∀ f ∈ frames.head?, f.timestampUs = t₀
  bounded : ∀ f ∈ frames, f.timestampUs < 2 ^ 61

/-- The accumulator after some frames: on the grid, and at most one and a half intervals after the
    last delivery. -/
structure OnGrid (interval t₀ : Nat) (frames : List Shot) (accum : Nat) : Prop where
  accum_eq : accum = t₀ + deliveries frames * interval
  some_delivered : 0 < deliveries frames
  bounded : accum < 3 * 2 ^ 61

theorem deliveries_concat (frames : List Shot) (f : Shot) :
    deliveries (frames ++ [f]) = deliveries frames + if f.delivered then 1 else 0 := by
  simp [deliveries, List.countP_append, List.countP_singleton]

/-- One more frame keeps the accumulator on the grid; it is delivered from `due` on. -/
theorem shoot_onGrid {interval t₀ accum accum' : Nat} {frames : List Shot} {f : Shot}
    (hI : interval < 2 ^ 61) (hpos : 0 < t₀) (hts : f.timestampUs < 2 ^ 61)
    (hgrid : OnGrid interval t₀ frames accum) (h : shoot (tick interval) accum f = some accum') :
    OnGrid interval t₀ (frames ++ [f]) accum' ∧
      (f.delivered ↔ due t₀ interval (deliveries frames) ≤ f.timestampUs) := by
  obtain ⟨hacc, hsome, hbound⟩ := hgrid
  rw [shoot, tick_pos (by omega) (by omega) (by omega)] at h
  have hdue : accum ≤ f.timestampUs + interval / 2 ↔
      due t₀ interval (deliveries frames) ≤ f.timestampUs := by
    rw [due, ← hacc]
    omega
  by_cases hle : accum ≤ f.timestampUs + interval / 2
  · simp only [if_pos hle] at h
    split_ifs at h with hd
    cases h
    refine ⟨⟨?_, ?_, by omega⟩, by simp [← hd, ← hdue, hle]⟩
    · rw [deliveries_concat, ← hd, if_pos rfl, Nat.succ_mul]
      omega
    · rw [deliveries_concat]
      omega
  · simp only [if_neg hle] at h
    split_ifs at h with hd
    cases h
    refine ⟨⟨?_, ?_, hbound⟩, by simp [← hd, ← hdue, hle]⟩
    · simp [deliveries_concat, ← hd, hacc]
    · simp [deliveries_concat, ← hd, hsome]

/-! ### A sequence of frames -/

section frames
variable {interval t₀ accum : Nat} {frames : List Shot}

theorem Timed.left {before after : List Shot} (h : Timed interval t₀ (before ++ after))
    (hne : before ≠ []) : Timed interval t₀ before where
  interval_pos := h.interval_pos
  interval_lt := h.interval_lt
  start_pos := h.start_pos
  first := by
    intro f hf
    refine h.first f ?_
    rw [List.head?_append_of_ne_nil _ hne]
    exact hf
  bounded := fun f hf => h.bounded f (List.mem_append_left _ hf)

/-- After any frames but none the accumulator is on the grid. -/
theorem run_onGrid (ht : Timed interval t₀ frames) (hne : frames ≠ [])
    (hrun : run (shoot (tick interval)) 0 frames = some accum) :
    OnGrid interval t₀ frames accum := by
  induction frames using List.reverseRecOn generalizing accum with
  | nil => exact absurd rfl hne
  | append_singleton before f ih =>
    obtain ⟨mid, hbefore, hlast⟩ := run_append_iff.mp hrun
    obtain ⟨last, hshoot, hend⟩ := run_cons.mp hlast
    cases hend
    have hts : f.timestampUs < 2 ^ 61 := ht.bounded f (by simp)
    have hI := ht.interval_lt
    by_cases hempty : before = []
    · -- the first frame sets the accumulator
      subst hempty
      cases hbefore
      have hfirst : f.timestampUs = t₀ := ht.first f rfl
      rw [shoot, tick_zero] at hshoot
      split_ifs at hshoot with hd
      cases hshoot
      have hone : deliveries ([] ++ [f]) = 1 := by simp [deliveries, ← hd]
      refine ⟨?_, by omega, by omega⟩
      rw [hone]
      omega
    · have hgrid := ih (ht.left hempty) hempty hbefore
      exact (shoot_onGrid hI ht.start_pos hts hgrid hshoot).1

theorem split_at {n : Nat} {f : Shot} (h : frames[n]? = some f) :
    frames = frames.take n ++ f :: frames.drop (n + 1) := by
  obtain ⟨hn, rfl⟩ := List.getElem?_eq_some_iff.mp h
  rw [← List.drop_eq_getElem_cons hn, List.take_append_drop]

theorem deliveries_take_succ {n : Nat} {f : Shot} (h : frames[n]? = some f) :
    deliveries (frames.take (n + 1)) =
      deliveries (frames.take n) + if f.delivered then 1 else 0 := by
  rw [List.take_add_one, h, Option.toList_some, deliveries_concat]

theorem deliveries_take_mono (frames : List Shot) {m n : Nat} (h : m ≤ n) :
    deliveries (frames.take m) ≤ deliveries (frames.take n) :=
  (List.take_sublist_take_left h).countP_le

/-- The first frame is delivered. -/
theorem first_delivered (hrun : run (shoot (tick interval)) 0 frames = some accum) {f : Shot}
    (h : frames[0]? = some f) : f.delivered = true := by
  rw [split_at h] at hrun
  obtain ⟨mid, hshoot, -⟩ := run_cons.mp hrun
  rw [shoot, tick_zero] at hshoot
  split_ifs at hshoot with hd
  exact hd.symm

theorem deliveries_pos (hrun : run (shoot (tick interval)) 0 frames = some accum) {m n : Nat}
    (hn : 0 < n) {f : Shot} (h : frames[m]? = some f) : 0 < deliveries (frames.take n) := by
  obtain ⟨z, hz⟩ : ∃ z, frames[0]? = some z := by
    have hlen := (List.getElem?_eq_some_iff.mp h).1
    exact ⟨_, List.getElem?_eq_getElem (by omega)⟩
  have hone := deliveries_take_succ hz
  rw [if_pos (first_delivered hrun hz)] at hone
  have hmono := deliveries_take_mono frames hn
  rw [Nat.succ_eq_add_one, hone] at hmono
  omega

/-- A later frame is delivered exactly from the due time on that the deliveries before it give. -/
theorem delivered_iff (ht : Timed interval t₀ frames)
    (hrun : run (shoot (tick interval)) 0 frames = some accum) {n : Nat} (hn : 0 < n) {f : Shot}
    (h : frames[n]? = some f) :
    f.delivered = true ↔ due t₀ interval (deliveries (frames.take n)) ≤ f.timestampUs := by
  have hsplit := split_at h
  have hts : f.timestampUs < 2 ^ 61 := ht.bounded f (List.mem_of_getElem? h)
  have hne : frames.take n ≠ [] := by
    intro hnil
    rcases List.take_eq_nil_iff.mp hnil with h0 | hnil
    · omega
    · simp [hnil] at h
  rw [hsplit] at hrun
  obtain ⟨mid, hbefore, hlast⟩ := run_append_iff.mp hrun
  obtain ⟨after, hshoot, -⟩ := run_cons.mp hlast
  rw [hsplit] at ht
  have hgrid := run_onGrid (ht.left hne) hne hbefore
  exact (shoot_onGrid ht.interval_lt ht.start_pos hts hgrid hshoot).2

/-- Between a delivery and the first frame that is due nothing is delivered. -/
theorem deliveries_until_due (ht : Timed interval t₀ frames)
    (hrun : run (shoot (tick interval)) 0 frames = some accum) {k p tp : Nat}
    (hp : Delivery frames k p tp) {n : Nat} (hn : p < n) (hlen : n ≤ frames.length)
    (hearly : ∀ m f, p < m → m < n → frames[m]? = some f →
      f.timestampUs < due t₀ interval (k + 1)) :
    deliveries (frames.take n) = k + 1 := by
  induction n with
  | zero => omega
  | succ n ih =>
    obtain ⟨hframe, hcount⟩ := hp
    rcases Nat.lt_succ_iff_lt_or_eq.mp hn with hlt | rfl
    · have hbefore := ih hlt (by omega) fun m f hm hmn => hearly m f hm (by omega)
      obtain ⟨f, hf⟩ : ∃ f, frames[n]? = some f := ⟨_, List.getElem?_eq_getElem (by omega)⟩
      have hlate : f.timestampUs < due t₀ interval (k + 1) := hearly n f hlt (by omega) hf
      have hdropped : ¬ f.delivered = true := by
        rw [delivered_iff ht hrun (by omega) hf, hbefore]
        omega
      rw [deliveries_take_succ hf, if_neg hdropped, hbefore]
    · rw [deliveries_take_succ hframe, if_pos rfl, hcount]

/-- The next delivery is the first frame that is due. -/
theorem delivery_succ_iff (ht : Timed interval t₀ frames)
    (hrun : run (shoot (tick interval)) 0 frames = some accum) {k p tp : Nat}
    (hp : Delivery frames k p tp) (n ts : Nat) :
    Delivery frames (k + 1) n ts ↔
      p < n ∧ (∃ b, frames[n]? = some ⟨ts, b⟩) ∧ due t₀ interval (k + 1) ≤ ts ∧
        ∀ m f, p < m → m < n → frames[m]? = some f →
          f.timestampUs < due t₀ interval (k + 1) := by
  obtain ⟨hframe, hcount⟩ := hp
  have hafter : deliveries (frames.take (p + 1)) = k + 1 := by
    rw [deliveries_take_succ hframe, if_pos rfl, hcount]
  constructor
  · rintro ⟨hn, hk⟩
    have hlt : p < n := by
      by_contra hle
      have hmono := deliveries_take_mono frames (Nat.le_of_not_lt hle)
      omega
    have hdue := (delivered_iff ht hrun (by omega) hn).mp rfl
    rw [hk] at hdue
    refine ⟨hlt, ⟨true, hn⟩, hdue, fun m f hm hmn hf => ?_⟩
    -- the count is the same at `m` and right after it
    have hlow := deliveries_take_mono frames hm
    have hhigh := deliveries_take_mono frames hmn
    rw [Nat.succ_eq_add_one, deliveries_take_succ hf] at hhigh
    rw [Nat.succ_eq_add_one] at hlow
    have hdropped : ¬ f.delivered = true := by
      intro hd
      rw [if_pos hd] at hhigh
      omega
    rw [delivered_iff ht hrun (by omega) hf] at hdropped
    have hsame : deliveries (frames.take m) = k + 1 := by omega
    rw [hsame] at hdropped
    omega
  · rintro ⟨hlt, ⟨b, hb⟩, hdue, hearly⟩
    have hlen : n < frames.length := (List.getElem?_eq_some_iff.mp hb).1
    have hk := deliveries_until_due ht hrun ⟨hframe, hcount⟩ hlt (by omega) hearly
    have hdelivered : b = true := by
      have hiff := delivered_iff ht hrun (by omega) hb
      rw [hk] at hiff
      exact hiff.mpr hdue
    exact ⟨hdelivered ▸ hb, hk⟩

/-- No delivery after the first is early. -/
theorem delivery_due (ht : Timed interval t₀ frames)
    (hrun : run (shoot (tick interval)) 0 frames = some accum) {k n ts : Nat}
    (hd : Delivery frames (k + 1) n ts) : due t₀ interval (k + 1) ≤ ts := by
  obtain ⟨hframe, hcount⟩ := hd
  have hn : 0 < n := by
    rcases Nat.eq_zero_or_pos n with rfl | hn
    · simp [deliveries] at hcount
    · exact hn
  have hdue := (delivered_iff ht hrun hn hframe).mp rfl
  rwa [hcount] at hdue

theorem due_succ (interval t₀ : Nat) {k : Nat} (hk : 0 < k) :
    due t₀ interval (k + 1) = due t₀ interval k + interval := by
  have hle : interval ≤ k * interval := Nat.le_mul_of_pos_left interval hk
  rw [due, due, Nat.succ_mul]
  omega

/-- With source timestamps no further apart than an interval, the frames seen so far are not past
    the next due time. -/
theorem seen_before_due (ht : Timed interval t₀ frames)
    (hrun : run (shoot (tick interval)) 0 frames = some accum) {g : Nat} (hg : g ≤ interval)
    (hgap : ∀ n a b, frames[n]? = some a → frames[n + 1]? = some b →
      b.timestampUs ≤ a.timestampUs + g) {n : Nat} {f : Shot} (hf : frames[n]? = some f) :
    f.timestampUs ≤ due t₀ interval (deliveries (frames.take (n + 1))) := by
  induction n generalizing f with
  | zero =>
    have hfirst : f.timestampUs = t₀ := ht.first f (by rwa [List.head?_eq_getElem?])
    rw [deliveries_take_succ hf, if_pos (first_delivered hrun hf)]
    simp only [List.take_zero, deliveries, List.countP_nil, due]
    omega
  | succ n ih =>
    obtain ⟨a, ha⟩ : ∃ a, frames[n]? = some a := by
      have hlen := (List.getElem?_eq_some_iff.mp hf).1
      exact ⟨_, List.getElem?_eq_getElem (by omega)⟩
    have hseen := ih ha
    have hnext := hgap n a f ha hf
    have hiff := delivered_iff ht hrun (by omega : 0 < n + 1) hf
    rw [deliveries_take_succ hf]
    split_ifs with hd
    · have hpos := deliveries_pos hrun (by omega : 0 < n + 1) hf
      rw [due_succ interval t₀ hpos]
      omega
    · rw [hiff] at hd
      rw [Nat.add_zero]
      omega

/-- A delivery is less than a source period after its due time. -/
theorem delivery_near_due (ht : Timed interval t₀ frames)
    (hrun : run (shoot (tick interval)) 0 frames = some accum) {g : Nat} (hg : g ≤ interval)
    (hgap : ∀ n a b, frames[n]? = some a → frames[n + 1]? = some b →
      b.timestampUs ≤ a.timestampUs + g) {k n ts : Nat} (hk : 0 < k)
    (hd : Delivery frames k n ts) : ts ≤ due t₀ interval k + g := by
  obtain ⟨hframe, hcount⟩ := hd
  cases n with
  | zero =>
    simp [deliveries] at hcount
    omega
  | succ n =>
    obtain ⟨a, ha⟩ : ∃ a, frames[n]? = some a := by
      have hlen := (List.getElem?_eq_some_iff.mp hframe).1
      exact ⟨_, List.getElem?_eq_getElem (by omega)⟩
    have hseen := seen_before_due ht hrun hg hgap ha
    have hnext := hgap n a _ ha hframe
    rw [hcount] at hseen
    simp only at hnext
    omega

end frames

/-! ### The frames of a run -/

/-- What a run shows of the decimation: a captured frame, a conversion that failed, or a new
    configuration. -/
inductive Note where
  | frame (f : Shot)
  | convertFailed
  | reconfigured
  deriving DecidableEq, Repr

/-- The frame that a pass dequeued and exported. -/
def takeNotes (w : World) (a : Attempt) : List Note :=
  match a.dqbuf, a.dmabuf, takeFrame w a with
  | .ok b, .ok _, some (_, .again) => [.frame ⟨b.timestampUs, false⟩]
  | .ok _, .ok _, some (_, .done _ (some f)) => [.frame ⟨f.timestampUs, true⟩]
  | .ok _, .ok _, some (_, .done _ none) => [.convertFailed]
  | _, _, _ => []

/-- One pass from `again:`. A lost signal that comes back brings a new configuration. -/
def passNotes (w : World) (timeout : Int) (a : Attempt) : List Note :=
  match waitSignal w timeout a with
  | some (w₁, none) =>
    (if w.ctx.signalLost then [.reconfigured] else []) ++
      match waitFrame w₁ timeout a with
      | some (w₂, none) => takeNotes w₂ a
      | _ => []
  | _ => []

def attemptsNotes (timeout : Int) : World → List Attempt → List Note
  | _, [] => []
  | w, a :: rest =>
    passNotes w timeout a ++
      match attempt w timeout a with
      | some (w', .again) => attemptsNotes timeout w' rest
      | _ => []

def callNotes (w : World) : Call → List Note
  | .acquire timeout env => if w.ctx.streaming then attemptsNotes timeout w env else []
  | .pollEvent timeout env =>
    if (pollEvent w timeout env).2 = .sourceChange then [.reconfigured] else []
  | _ => []

/-- The notes of a run. -/
def history : World → List Call → List Note
  | _, [] => []
  | w, c :: cs =>
    callNotes w c ++
      match step w c with
      | some w' => history w' cs
      | none => []

/-! ### What the calls leave alone -/

/-- What decides about a frame. -/
def pace (w : World) : Config × Nat × Bool :=
  (w.ctx.config, w.ctx.tsAccum, w.ctx.reconfigPending)

section pace
variable {w w' : World}

@[simp] theorem pace_trace (w : World) (e : Sys) : pace (w.trace e) = pace w := rfl

@[simp] theorem pace_diag (w : World) (d : Diag) : pace (w.diag d) = pace w := rfl

@[simp] theorem pace_loseSignal (w : World) : pace w.loseSignal = pace w := rfl

@[simp] theorem pace_qbuf (w : World) (i : Nat) (answer : Option Errno) :
    pace (qbuf w i answer).1 = pace w := by
  unfold qbuf
  split
  · cases answer <;> rfl
  · rfl

@[simp] theorem pace_giveBack (w : World) (fd : Int) (i : Nat) (answer : Option Errno) :
    pace (giveBack w fd i answer) = pace w := by
  rw [giveBack, pace_qbuf, pace_trace]

theorem pace_dqbuf {i : Nat} (h : dqbuf w i = some w') : pace w' = pace w := by
  rw [dqbuf] at h
  split_ifs at h
  cases h
  rfl

theorem pace_reqbufs (w : World) (asked : Nat) (answer : ReqbufsRet) :
    pace (reqbufs w asked answer).1 = pace w := by
  cases answer with
  | granted n => rfl
  | failed e freed => cases freed <;> rfl

theorem pace_qbufAll (answer : Nat → Option Errno) (w : World) (L : List Nat) :
    pace (qbufAll answer w L).1 = pace w := by
  induction L generalizing w with
  | nil => rfl
  | cons i L ih =>
    have hone := pace_qbuf w i (answer i)
    rw [qbufAll]
    generalize qbuf w i (answer i) = q at hone ⊢
    obtain ⟨w₁, e⟩ := q
    cases e with
    | none => exact (ih w₁).trans hone
    | some e => exact hone

theorem pace_dqevent (w : World) (by_ : Entry) (s : DqStep) :
    pace (dqevent w by_ s).1 = pace w := by
  rw [dqevent]
  split_ifs
  · rfl
  · cases w.dev.events ++ s.arrived <;> rfl

theorem pace_drainToSourceChange {by_ : Entry} {steps : List DqStep} {found : Bool}
    (h : drainToSourceChange by_ w steps = some (w', found)) : pace w' = pace w := by
  induction steps generalizing w with
  | nil => cases h
  | cons s steps ih =>
    have hone := pace_dqevent w by_ s
    rw [drainToSourceChange] at h
    generalize dqevent w by_ s = q at h hone
    obtain ⟨w₁, e⟩ := q
    cases e with
    | none =>
      cases h
      exact hone
    | some e =>
      cases e with
      | sourceChange =>
        cases h
        exact hone
      | other => exact (ih h).trans hone

theorem pace_drainAll {by_ : Entry} {steps : List DqStep} (h : drainAll by_ w steps = some w') :
    pace w' = pace w := by
  induction steps generalizing w with
  | nil => cases h
  | cons s steps ih =>
    have hone := pace_dqevent w by_ s
    rw [drainAll] at h
    generalize dqevent w by_ s = q at h hone
    obtain ⟨w₁, e⟩ := q
    cases e with
    | none =>
      cases h
      exact hone
    | some e => exact (ih h).trans hone

theorem pace_stop (w : World) (env : FreeEnv) : pace (stop w env) = pace w := by
  rw [stop]
  split_ifs
  · simp only [pace, World.setCtx, freeBuffers_ctx]
  · rfl

theorem pace_releaseFrame (w : World) (f : Frame) (answer : Option Errno) :
    pace (releaseFrame w f answer) = pace w := by
  rw [releaseFrame, pace_qbuf]
  cases f.priv with
  | none =>
    dsimp only
    split_ifs <;> rfl
  | some p =>
    dsimp only
    split_ifs <;> rfl

theorem pace_startVulkan (w : World) (env : StartEnv) : pace (startVulkan w env).1 = pace w := by
  unfold startVulkan
  dsimp only
  split_ifs <;> rfl

theorem pace_start {n : Nat} {env : StartEnv} {r : Ret} (h : start w n env = some (w', r)) :
    pace w' = pace w := by
  unfold start at h
  split at h
  · cases h
    rfl
  · dsimp only at h
    split at h
    · cases h
      rfl
    · have hfmt : pace (readFmt w env.gfmt) = pace w := by
        cases env.gfmt <;> rfl
      split at h
      · cases h
      · rename_i w₁ hdrain
        have hdrained : pace w₁ = pace w :=
          (pace_drainAll (w := readFmt w env.gfmt) hdrain).trans hfmt
        have hreq : pace (reqbufs w₁ (min (max n minBuffers) maxBuffers) env.reqbufs).1 = pace w :=
          (pace_reqbufs ..).trans hdrained
        split at h
        · rename_i w₂ e heq
          rw [heq] at hreq
          cases h
          exact hreq
        · rename_i w₂ k heq
          rw [heq] at hreq
          have hall := (pace_qbufAll env.qbuf (w₂.setCtx { w₂.ctx with numBuffers := k })
            (List.range k)).trans hreq
          split at h
          · rename_i w₃ i e heq'
            rw [heq'] at hall
            cases h
            exact hall
          · rename_i w₃ heq'
            rw [heq'] at hall
            split at h
            · cases h
              exact hall
            · have hv := pace_startVulkan (w₃.trace .streamon) env
              rw [Option.some_inj.mp h] at hv
              exact hv.trans hall

theorem pace_waitBuffer {deadline : Int} {passes : List WaitPass} {r : Option Ret}
    (h : waitBuffer deadline w passes = some (w', r)) : pace w' = pace w := by
  induction passes generalizing w with
  | nil => cases h
  | cons p passes ih =>
    unfold waitBuffer at h
    dsimp only at h
    split at h
    · cases h
      rfl
    · split at h
      · cases h
        rfl
      · split at h
        · exact (ih h).trans (pace_trace ..)
        · split at h
          · cases h
            rfl
          · cases h
            rfl
      · split at h
        · cases h
          rfl
        · rename_i ev _ _
          have hevents : ∀ {v : World} {found : Bool}, handleEvents (w.trace
              (.poll ((deadline - p.now).bmod (2 ^ 32)))) ev p.drain = some (v, found) →
              pace v = pace w := by
            intro v found hv
            unfold handleEvents at hv
            split at hv
            · exact (pace_drainToSourceChange hv).trans (pace_trace ..)
            · cases hv
              rfl
          split at h
          · cases h
          · rename_i hv
            cases h
            exact (pace_loseSignal _).trans (hevents hv)
          · rename_i hv
            split at h
            · cases h
              exact hevents hv
            · exact (ih h).trans (hevents hv)

/-- Without a restored signal the recovery loop leaves the pace alone. -/
theorem pace_recoverSignal {timeout : Int} {passes : List RecoverPass} {r : Ret}
    (h : recoverSignal timeout w passes = some (w', some r)) : pace w' = pace w := by
  induction passes generalizing w with
  | nil => cases h
  | cons p passes ih =>
    unfold recoverSignal at h
    dsimp only at h
    split at h
    · cases h
      rfl
    · split at h
      · exact (ih h).trans (pace_trace ..)
      · cases h
        rfl
    · split at h
      · split at h
        · cases h
        · cases h
        · rename_i hdrain
          exact (ih h).trans ((pace_drainToSourceChange hdrain).trans (pace_trace ..))
      · exact (ih h).trans (pace_trace ..)

theorem pace_waitFrame {timeout : Int} {a : Attempt} {r : Option Ret}
    (h : waitFrame w timeout a = some (w', r)) : pace w' = pace w := by
  rw [waitFrame] at h
  split_ifs at h
  · exact pace_waitBuffer h
  · cases h
    rfl

theorem pace_pollEvent {timeout : Int} {env : PollEnv}
    (h : (pollEvent w timeout env).2 ≠ .sourceChange) :
    pace (pollEvent w timeout env).1 = pace w := by
  unfold pollEvent at h ⊢
  generalize env.poll = answer at h ⊢
  cases answer with
  | timeout => rfl
  | error e => rfl
  | ready ev =>
    dsimp only at h ⊢
    by_cases herr : ev.err = true
    · rw [if_pos herr]
      rfl
    · rw [if_neg herr] at h ⊢
      by_cases hpri : ev.pri = true
      · rw [if_pos hpri] at h ⊢
        have hone := pace_dqevent (w.trace (.poll timeout)) .pollEvent env.dqevent
        generalize dqevent (w.trace (.poll timeout)) .pollEvent env.dqevent = q at h hone ⊢
        obtain ⟨w₁, e⟩ := q
        cases e with
        | none => exact hone
        | some e =>
          cases e with
          | sourceChange => exact absurd rfl h
          | other => exact hone
      · rw [if_neg hpri]
        rfl

theorem pace_finish (w : World) (f : Frame) (hpending : w.ctx.reconfigPending = false) :
    finish w f = (w, .done .ok (some f)) := by
  rw [finish, hpending]
  rfl

end pace

/-! ### The calls follow the accumulator -/

/-- Between two worlds the accumulator takes the frames, and nothing else that decides about a frame
    changes. -/
structure Paces (interval : Nat) (w w' : World) (frames : List Shot) : Prop where
  config : w'.ctx.config = w.ctx.config
  pending : w'.ctx.reconfigPending = w.ctx.reconfigPending
  accum : run (shoot (tick interval)) w.ctx.tsAccum frames = some w'.ctx.tsAccum

/-- A world in which decimation works with the interval. -/
def Decimates (interval : Nat) (w : World) : Prop :=
  w.ctx.config.frameInterval = some interval ∧ w.ctx.reconfigPending = false

section calls
variable {interval : Nat} {w w' w'' : World} {frames frames' : List Shot}

theorem Paces.of_pace (h : pace w' = pace w) : Paces interval w w' [] := by
  simp only [pace, Prod.mk.injEq] at h
  exact ⟨h.1, h.2.2, by rw [h.2.1]; rfl⟩

theorem Paces.trans (h : Paces interval w w' frames) (h' : Paces interval w' w'' frames') :
    Paces interval w w'' (frames ++ frames') where
  config := h'.config.trans h.config
  pending := h'.pending.trans h.pending
  accum := run_append h.accum h'.accum

theorem Decimates.after (hw : Decimates interval w) (h : Paces interval w w' frames) :
    Decimates interval w' := by
  rw [Decimates, h.config, h.pending]
  exact hw

theorem frame_injective : Function.Injective Note.frame := by
  intro f g h
  cases h
  rfl

/-- The accumulator takes a frame. -/
theorem setCtx_paces {accum timestampUs : Nat} {kept : Bool}
    (h : run (shoot (tick interval)) w.ctx.tsAccum [⟨timestampUs, kept⟩] = some accum) :
    Paces interval w (w.setCtx { w.ctx with tsAccum := accum }) [⟨timestampUs, kept⟩] :=
  ⟨rfl, rfl, h⟩

theorem tick_paces (interval : Nat) (w : World) (timestampUs : Nat) :
    Paces interval w (w.setCtx { w.ctx with
      tsAccum := (tick interval w.ctx.tsAccum timestampUs).1 })
      [⟨timestampUs, (tick interval w.ctx.tsAccum timestampUs).2⟩] :=
  setCtx_paces (run_shoot (tick interval) w.ctx.tsAccum timestampUs)

/-- Converting leaves the pace alone; a frame keeps its timestamp, and the call returns. -/
theorem convert_paces {a : Attempt} {f : Frame} {out : Outcome} (hw : Decimates interval w)
    (h : convert w a f = (w', out)) :
    pace w' = pace w ∧ ∃ r g, out = .done r g ∧ ∀ g' ∈ g, g'.timestampUs = f.timestampUs := by
  unfold convert at h
  split at h
  · split at h
    · rw [pace_finish w f hw.2] at h
      cases h
      exact ⟨rfl, _, _, rfl, by simp⟩
    · rename_i p _
      split at h
      · cases h
        exact ⟨by rw [pace_giveBack, pace_diag], _, _, rfl, by simp⟩
      · rename_i out' _
        dsimp only at h
        split at h
        · rw [pace_finish (w.trace _) _ hw.2] at h
          cases h
          exact ⟨rfl, _, _, rfl, by simp [convertedFrame]⟩
        · cases h
          exact ⟨by rw [pace_giveBack, pace_trace, pace_trace], _, _, rfl, by simp⟩
  · rw [pace_finish w f hw.2] at h
    cases h
    exact ⟨rfl, _, _, rfl, by simp⟩

/-- A pass takes its frame with the accumulator's decision. -/
theorem takeFrame_paces {a : Attempt} {out : Outcome} (hw : Decimates interval w)
    (h : takeFrame w a = some (w', out)) (hnotes : takeNotes w a = frames.map Note.frame) :
    Paces interval w w' frames := by
  rw [takeNotes, h] at hnotes
  unfold takeFrame at h
  cases hdq : a.dqbuf with
  | error e =>
    simp only [hdq] at h hnotes
    rw [List.map_eq_nil_iff.mp hnotes.symm]
    refine Paces.of_pace ?_
    split_ifs at h
    all_goals
      cases h
      rfl
  | ok b =>
    simp only [hdq] at h hnotes
    cases htaken : dqbuf w b.index with
    | none =>
      rw [htaken] at h
      cases h
    | some v =>
      simp only [htaken] at h
      have hv := pace_dqbuf htaken
      cases hexport : a.dmabuf with
      | error e =>
        simp only [hexport] at h hnotes
        rw [List.map_eq_nil_iff.mp hnotes.symm]
        refine Paces.of_pace ?_
        split_ifs at h
        · cases h
          rw [pace_loseSignal, pace_qbuf, pace_diag, hv]
        · cases h
          rw [pace_qbuf, pace_diag, hv]
      | ok out' =>
        obtain ⟨fd, size⟩ := out'
        simp only [hexport] at h hnotes
        have hsame : Paces interval w (v.trace (.getDmabuf fd)) [] :=
          Paces.of_pace ((pace_trace ..).trans hv)
        have hdec := hw.after hsame
        rw [decimate_eq_tick hdec.1 hdec.2] at h
        have hshot := tick_paces interval (v.trace (.getDmabuf fd)) b.timestampUs
        cases hkept : (tick interval v.ctx.tsAccum b.timestampUs).2 with
        | false =>
          have hkept' : (tick interval (v.trace (.getDmabuf fd)).ctx.tsAccum b.timestampUs).2 =
            false := hkept
          rw [hkept'] at h hshot
          simp only [Bool.not_false, if_true, Option.some_inj, Prod.mk.injEq] at h
          obtain ⟨rfl, rfl⟩ := h
          have hframes : frames = [⟨b.timestampUs, false⟩] :=
            List.map_injective_iff.mpr frame_injective hnotes.symm
          rw [hframes]
          exact (hsame.trans hshot).trans (Paces.of_pace (pace_giveBack ..))
        | true =>
          have hkept' : (tick interval (v.trace (.getDmabuf fd)).ctx.tsAccum b.timestampUs).2 =
            true := hkept
          rw [hkept'] at h hshot
          simp only [Bool.not_true, Bool.false_eq_true, if_false, Option.some_inj] at h
          obtain ⟨hpace, r, g, rfl, hts⟩ := convert_paces (hdec.after hshot) h
          cases g with
          | none =>
            cases frames with
            | nil => cases hnotes
            | cons f rest => cases hnotes
          | some g =>
            have hg : g.timestampUs = b.timestampUs := hts g rfl
            have hframes : frames = [⟨g.timestampUs, true⟩] :=
              List.map_injective_iff.mpr frame_injective hnotes.symm
            rw [hframes, hg]
            exact (hsame.trans hshot).trans (Paces.of_pace hpace)

/-- Notes that are frames split where the calls do. -/
theorem notes_append {notes notes' : List Note} (h : notes ++ notes' = frames.map Note.frame) :
    ∃ before after, frames = before ++ after ∧ notes = before.map Note.frame ∧
      notes' = after.map Note.frame := by
  obtain ⟨before, after, rfl, rfl, rfl⟩ := List.map_eq_append_iff.mp h.symm
  exact ⟨before, after, rfl, rfl, rfl⟩

theorem attempt_paces {timeout : Int} {a : Attempt} {out : Outcome} (hw : Decimates interval w)
    (h : attempt w timeout a = some (w', out))
    (hnotes : passNotes w timeout a = frames.map Note.frame) : Paces interval w w' frames := by
  unfold attempt at h
  rw [passNotes] at hnotes
  cases hsignal : waitSignal w timeout a with
  | none =>
    rw [hsignal] at h
    cases h
  | some q =>
    obtain ⟨w₁, r⟩ := q
    simp only [hsignal] at h hnotes
    cases r with
    | some r =>
      -- the wait for the signal ended the call
      cases h
      rw [List.map_eq_nil_iff.mp hnotes.symm]
      refine Paces.of_pace ?_
      rw [waitSignal] at hsignal
      split_ifs at hsignal
      · exact pace_recoverSignal hsignal
      · cases hsignal
    | none =>
      obtain ⟨before, after, rfl, hlost, hafter⟩ := notes_append hnotes
      have hsame : w₁ = w ∧ before = [] := by
        rw [waitSignal] at hsignal
        split_ifs at hsignal hlost
        · cases before with
          | nil => cases hlost
          | cons f rest => cases hlost
        · cases hsignal
          exact ⟨rfl, List.map_eq_nil_iff.mp hlost.symm⟩
      obtain ⟨rfl, rfl⟩ := hsame
      simp only at h
      cases hframe : waitFrame w₁ timeout a with
      | none =>
        rw [hframe] at h
        cases h
      | some q =>
        obtain ⟨w₂, r⟩ := q
        simp only [hframe] at h hafter
        have hwait : Paces interval w₁ w₂ [] := Paces.of_pace (pace_waitFrame hframe)
        cases r with
        | some r =>
          cases h
          rw [List.map_eq_nil_iff.mp hafter.symm]
          exact hwait
        | none => exact hwait.trans (takeFrame_paces (hw.after hwait) h hafter)

theorem attempts_paces {timeout : Int} {env : List Attempt} {r : Ret} {f : Option Frame}
    (hw : Decimates interval w) (h : attempts timeout w env = some (w', r, f))
    (hnotes : attemptsNotes timeout w env = frames.map Note.frame) :
    Paces interval w w' frames := by
  induction env generalizing w frames with
  | nil => cases h
  | cons a rest ih =>
    rw [attempts] at h
    rw [attemptsNotes] at hnotes
    obtain ⟨before, after, rfl, hpass, hafter⟩ := notes_append hnotes
    cases hattempt : attempt w timeout a with
    | none =>
      rw [hattempt] at h
      cases h
    | some q =>
      obtain ⟨w₁, out⟩ := q
      have hone := attempt_paces hw hattempt hpass
      simp only [hattempt] at h hafter
      cases out with
      | done r' f' =>
        cases h
        rw [List.map_eq_nil_iff.mp hafter.symm, List.append_nil]
        exact hone
      | again => exact hone.trans (ih (hw.after hone) h hafter)

/-- One call takes its frames with the accumulator's decisions. -/
theorem step_paces {c : Call} (hw : Decimates interval w) (h : step w c = some w')
    (hnotes : callNotes w c = frames.map Note.frame) : Paces interval w w' frames := by
  have hquiet : callNotes w c = [] → pace w' = pace w → Paces interval w w' frames := by
    intro hnone hpace
    rw [hnone] at hnotes
    rw [List.map_eq_nil_iff.mp hnotes.symm]
    exact Paces.of_pace hpace
  cases c with
  | start n env =>
    obtain ⟨⟨w₁, r⟩, hstart, rfl⟩ := Option.map_eq_some_iff.mp h
    exact hquiet rfl (pace_start hstart)
  | stop env =>
    cases h
    exact hquiet rfl (pace_stop w env)
  | acquire timeout env =>
    obtain ⟨⟨w₁, r, f⟩, hacquire, rfl⟩ := Option.map_eq_some_iff.mp h
    rw [acquireFrame] at hacquire
    split_ifs at hacquire with hstreaming
    · simp only [callNotes, if_pos hstreaming] at hnotes
      have hpaces := attempts_paces hw hacquire hnotes
      exact ⟨hpaces.config, hpaces.pending, hpaces.accum⟩
    · cases hacquire
      exact hquiet (if_neg hstreaming) rfl
  | release k answer =>
    obtain ⟨f, -, rfl⟩ := Option.map_eq_some_iff.mp h
    exact hquiet rfl (pace_releaseFrame ..)
  | pollEvent timeout env =>
    cases h
    by_cases hchange : (pollEvent w timeout env).2 = .sourceChange
    · simp only [callNotes, if_pos hchange] at hnotes
      cases frames with
      | nil => cases hnotes
      | cons f rest => cases hnotes
    · exact hquiet (if_neg hchange) (pace_pollEvent hchange)
  | emit e =>
    cases h
    exact hquiet rfl rfl

theorem run_paces {calls : List Call} (hw : Decimates interval w)
    (hrun : run step w calls = some w')
    (hnotes : history w calls = frames.map Note.frame) : Paces interval w w' frames := by
  induction calls generalizing w frames with
  | nil =>
    cases hrun
    rw [List.map_eq_nil_iff.mp hnotes.symm]
    exact Paces.of_pace rfl
  | cons c calls ih =>
    obtain ⟨w₁, hstep, hrest⟩ := run_cons.mp hrun
    rw [history] at hnotes
    simp only [hstep] at hnotes
    obtain ⟨before, after, rfl, hcall, hafter⟩ := notes_append hnotes
    have hone := step_paces hw hstep hcall
    exact hone.trans (ih (hw.after hone) hrest hafter)

end calls

/-- Nothing in `frames` was delivered before the first delivery, so it is the first frame. -/
theorem first_delivery {interval accum t₀ p₀ : Nat} {frames : List Shot}
    (hrun : run (shoot (tick interval)) 0 frames = some accum)
    (h₀ : Delivery frames 0 p₀ t₀) : p₀ = 0 := by
  obtain ⟨hframe, hcount⟩ := h₀
  by_contra hne
  have hpos := deliveries_pos hrun (Nat.pos_of_ne_zero hne) hframe
  omega

/-- Decimation keeps phase: in every run, and so along an infinite one, the `k`-th delivery after
    the first is the first frame after the one before it from `t₀ + k * I - I / 2` on, and with
    source periods of at most `g` it is at most `g` later, so it is never further from `t₀ + k * I`
    than half an interval or `g`. -/
theorem decimation_keeps_phase {cfg : Config} {fmt : Option Fmt} {events : List Event}
    {calls : List Call} {w : World} {frames : List Shot} {I t₀ p₀ : Nat}
    (hI : cfg.frameInterval = some I) (hpos : 0 < I) (hlt : I < 2 ^ 61)
    (hrun : run step (openWorld cfg fmt events) calls = some w)
    (hhistory : history (openWorld cfg fmt events) calls = frames.map Note.frame)
    (hbound : ∀ f ∈ frames, f.timestampUs < 2 ^ 61)
    (h₀ : Delivery frames 0 p₀ t₀) (ht₀ : 0 < t₀) :
    (∀ k p tp, Delivery frames k p tp → ∀ n ts, Delivery frames (k + 1) n ts ↔
      p < n ∧ (∃ b, frames[n]? = some ⟨ts, b⟩) ∧ t₀ + (k + 1) * I - I / 2 ≤ ts ∧
        ∀ m f, p < m → m < n → frames[m]? = some f →
          f.timestampUs < t₀ + (k + 1) * I - I / 2) ∧
    ∀ g ≤ I, (∀ n a b, frames[n]? = some a → frames[n + 1]? = some b →
        b.timestampUs ≤ a.timestampUs + g) →
      ∀ k n ts, Delivery frames (k + 1) n ts →
        ts ≤ t₀ + (k + 1) * I - I / 2 + g ∧
        t₀ + (k + 1) * I ≤ ts + max (I / 2) g ∧ ts ≤ t₀ + (k + 1) * I + max (I / 2) g := by
  have hopen : Decimates I (openWorld cfg fmt events) := by
    cases fmt <;> exact ⟨hI, rfl⟩
  have hzero : (openWorld cfg fmt events).ctx.tsAccum = 0 := by cases fmt <;> rfl
  have haccum := (run_paces hopen hrun hhistory).accum
  rw [hzero] at haccum
  have hp₀ := first_delivery haccum h₀
  subst hp₀
  have htimed : Timed I t₀ frames := by
    refine ⟨hpos, hlt, ht₀, fun f hf => ?_, hbound⟩
    rw [List.head?_eq_getElem?, h₀.1] at hf
    cases hf
    rfl
  refine ⟨fun k p tp hp n ts => delivery_succ_iff htimed haccum hp n ts,
    fun g hg hgap k n ts hd => ?_⟩
  have hnear : ts ≤ t₀ + (k + 1) * I - I / 2 + g :=
    delivery_near_due htimed haccum hg hgap (Nat.succ_pos k) hd
  have hdue : t₀ + (k + 1) * I - I / 2 ≤ ts := delivery_due htimed haccum hd
  omega

/-- Raw frames at most every millisecond. -/
def everyMillisecond : World := openWorld ⟨.raw, 0, 0, some 1000⟩ none []

def takeAt (i timestampUs : Nat) : Attempt := { takeToken i with dqbuf := .ok ⟨i, 0, timestampUs⟩ }

/-- The second of four frames is too early. -/
def fourFrames : List Call :=
  [.start 4 plainStart, .acquire 0 [takeAt 0 5000], .acquire 0 [takeAt 1 5400, takeAt 2 5600],
    .acquire 0 [takeAt 1 6500]]

def fourShots : List Shot := [⟨5000, true⟩, ⟨5400, false⟩, ⟨5600, true⟩, ⟨6500, true⟩]

theorem decimation_keeps_phase_fourFrames :
    (run step everyMillisecond fourFrames).isSome ∧
    history everyMillisecond fourFrames = fourShots.map Note.frame ∧
    Delivery fourShots 1 2 5600 ∧
    (Delivery fourShots 2 3 6500 ↔
      2 < 3 ∧ (∃ b, fourShots[3]? = some ⟨6500, b⟩) ∧ 6500 ≤ 6500 ∧
        ∀ m f, 2 < m → m < 3 → fourShots[m]? = some f → f.timestampUs < 6500) := by
  have hrun : (run step everyMillisecond fourFrames).isSome := by decide +kernel
  have hhistory : history everyMillisecond fourFrames = fourShots.map Note.frame := by
    decide +kernel
  obtain ⟨w, hw⟩ := Option.isSome_iff_exists.mp hrun
  have hfirst : Delivery fourShots 0 0 5000 := ⟨rfl, rfl⟩
  have hphase := decimation_keeps_phase rfl (by decide) (by decide) hw hhistory (by decide) hfirst
    (by decide)
  exact ⟨hrun, hhistory, ⟨rfl, rfl⟩, hphase.1 1 2 5600 ⟨rfl, rfl⟩ 3 6500⟩

end Streambox.Vfmcap.Decimation
